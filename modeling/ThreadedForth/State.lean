import ThreadedForth.Dictionary
import ThreadedForth.Event
import ThreadedForth.Stack
/-!
# ThreadedForth.State

The state every word works on: the operand stack, the dictionary, the mode, the unread input,
the text written and the log. The frames of running words are not part of it
(`ThreadedForth.Machine`): no primitive can see them.
-/

namespace ThreadedForth

/-- What the interpreter does with a token. -/
inductive Mode where
  /-- Run it. -/
  | interpret
  /-- Make it part of a definition. -/
  | compile
  deriving DecidableEq, Repr

/-- The state of an interpreter. -/
structure State where
  /-- The operand stack. -/
  stack : Stack := []
  /-- The dictionary. -/
  dict : Dictionary := {}
  /-- The mode. -/
  mode : Mode := .interpret
  /-- The unread tokens, or none while no source is being interpreted. -/
  input : Option (List Token) := none
  /-- The text written. -/
  out : String := ""
  /-- The log, newest event first. -/
  log : List Event := []
  deriving DecidableEq, Repr

namespace State

/-- The state of a fresh interpreter. -/
def initial : State where
  dict := .initial
  log := [.registered Dictionary.initial.size]

/-- How many tokens are unread. -/
def pending (s : State) : Nat := (s.input.getD []).length

/-- Write a text. -/
def write (s : State) (text : String) : State := { s with out := s.out ++ text }

/-- Log an event. -/
def record (s : State) (e : Event) : State := { s with log := e :: s.log }

/-- Push a value. -/
def push (s : State) (v : Value) : State := { s with stack := v :: s.stack }

/-- Replace the stack. -/
def withStack (s : State) (stack : Stack) : State := { s with stack }

/-- Replace the dictionary. -/
def withDict (s : State) (dict : Dictionary) : State := { s with dict }

/-- Replace the unread input. -/
def withInput (s : State) (input : Option (List Token)) : State := { s with input }

/-! ### Definitions -/

/-- Begin the definition of a name. -/
def define (s : State) (name : String) : State :=
  { s with dict := s.dict.define name }.record (.defining name s.dict.size)

/-- Finish the open definition, if there is one. -/
def finish (s : State) : State :=
  match s.dict.activeWord? with
  | none => { s with dict := s.dict.finish }
  | some w => { s with dict := s.dict.finish }.record (.finished w.name w.code.length)

/-- Abandon the open definition, if there is one. -/
def abandon (s : State) : State :=
  match s.dict.activeWord? with
  | none => { s with dict := s.dict.abandon }
  | some w => { s with dict := s.dict.abandon }.record (.abandoned w.name)

/-! ### Names -/

/-- Take the next token as a name; `op` is the word that wants it. -/
def readName (op : String) (s : State) : Outcome State String :=
  match s.input with
  | some (t :: ts) => .ok t.text { s with input := some ts }
  | _ => .fail (.raise (.missingName op)) s

/-- The word a name means outside the open definition. -/
def resolve (name : String) (s : State) : Outcome State Word :=
  match (s.dict.lookupOutside name).bind (s.dict.entries[·]?) with
  | some w => .ok w s
  | none => .fail (.raise (.unknown name)) s

/-! ### Equations -/

@[simp] theorem pending_write (s : State) (text : String) :
    (s.write text).pending = s.pending := rfl
@[simp] theorem pending_push (s : State) (v : Value) : (s.push v).pending = s.pending := rfl
@[simp] theorem pending_withStack (s : State) (stack : Stack) :
    (s.withStack stack).pending = s.pending := rfl
@[simp] theorem pending_withDict (s : State) (dict : Dictionary) :
    (s.withDict dict).pending = s.pending := rfl
@[simp] theorem pending_withInput (s : State) (ts : List Token) :
    (s.withInput (some ts)).pending = ts.length := rfl
@[simp] theorem pending_define (s : State) (name : String) :
    (s.define name).pending = s.pending := rfl

@[simp] theorem pending_finish (s : State) : s.finish.pending = s.pending := by
  unfold finish
  split <;> rfl

/-- Reading a name never adds input. -/
theorem pending_readName (op : String) (s : State) :
    (s.readName op).state.pending ≤ s.pending := by
  unfold readName
  split
  next t ts h => simp [pending, h]
  next => exact Nat.le_refl _

@[simp] theorem state_resolve (name : String) (s : State) : (s.resolve name).state = s := by
  unfold resolve
  split <;> rfl

end State

end ThreadedForth
