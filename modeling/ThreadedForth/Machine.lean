import ThreadedForth.CallStack
import ThreadedForth.Primitive.System
/-!
# ThreadedForth.Machine

The inner interpreter's machine: a state, and the call stack of the words being run. A call
pushes a frame, a finished frame is popped by a step of its own, and nothing recurses, so nesting
is bounded by the machine's limit alone.

The limit is an argument of the operations, not part of the machine, so that runs under two
limits can be compared on the same machine.
-/

namespace ThreadedForth

/-- A state with the call stack of the words being run. -/
structure Machine where
  /-- What words work on. -/
  state : State
  /-- The words being run. -/
  calls : CallStack := .empty
  deriving DecidableEq, Repr

namespace Machine

/-- The machine of a fresh interpreter. -/
def initial : Machine := { state := .initial }

/-- Replace the state. -/
def withState (m : Machine) (state : State) : Machine := { m with state }

/-- Write a text. -/
def write (m : Machine) (text : String) : Machine := m.withState (m.state.write text)

/-- The names of the words being run, outermost first. -/
def trace (m : Machine) : List String := m.calls.names

/-- Pop frames until only the outermost `base` are left. -/
def unwind (base : Nat) (m : Machine) : Machine := { m with calls := m.calls.unwind base }

/-- Push a frame for a word, unless the limit refuses it. -/
def enter (limit : Limit) (w : Word) (m : Machine) : Outcome Machine Unit :=
  match limit.refusal? w.name m.calls.depth with
  | some f => .fail f m
  | none => .ok () { m with calls := m.calls.push (.start w) }

/-- Push a frame for the word at a handle. -/
def call (limit : Limit) (handle : Int) (m : Machine) : Outcome Machine Unit :=
  match m.state.dict.word? handle with
  | none => .fail (.noItem handle) m
  | some w => m.enter limit w

/-- Run a primitive, and call the word it wants called. -/
def runPrimitive (limit : Limit) (p : Primitive) (m : Machine) : Outcome Machine Unit :=
  ((p.run m.state).mapState m.withState).bind fun wanted m =>
    match wanted with
    | none => .ok () m
    | some r => m.call limit r.handle

/-- Run a cell. -/
def runCell (limit : Limit) (c : Cell) (m : Machine) : Outcome Machine Unit :=
  match c with
  | .primitive p => m.runPrimitive limit p
  | .word r => m.call limit r.handle
  | .literal v => .ok () (m.withState (m.state.push v))

/-- One step: pop the innermost frame if it is finished, otherwise run its next cell. -/
def step (limit : Limit) (m : Machine) : Outcome Machine Unit :=
  match m.calls.frames with
  | [] => .ok () m
  | f :: _ =>
    match f.rest with
    | [] => .ok () { m with calls := m.calls.pop }
    | c :: rest => runCell limit c { m with calls := m.calls.pop.push { f with rest } }

/-! ### Equations -/

@[simp] theorem state_withState (m : Machine) (s : State) : (m.withState s).state = s := rfl
@[simp] theorem calls_withState (m : Machine) (s : State) : (m.withState s).calls = m.calls := rfl
@[simp] theorem state_unwind (base : Nat) (m : Machine) : (m.unwind base).state = m.state := rfl

@[simp] theorem state_enter (limit : Limit) (w : Word) (m : Machine) :
    (m.enter limit w).state.state = m.state := by
  unfold enter
  split <;> rfl

/-- A call changes no more than the frames. -/
@[simp] theorem state_call (limit : Limit) (handle : Int) (m : Machine) :
    (m.call limit handle).state.state = m.state := by
  unfold call
  split
  · rfl
  · simp

/-! ### Steps never add input -/

/-- A primitive may take tokens from the input, and adds none. -/
theorem pending_runPrimitive (limit : Limit) (p : Primitive) (m : Machine) :
    (m.runPrimitive limit p).state.state.pending ≤ m.state.pending := by
  have h := p.pending_run m.state
  unfold runPrimitive
  cases hp : p.run m.state with
  | fail f s => simpa [hp] using h
  | ok wanted s =>
    cases wanted with
    | none => simpa [hp] using h
    | some r => simpa [hp] using h

theorem pending_runCell (limit : Limit) (c : Cell) (m : Machine) :
    (m.runCell limit c).state.state.pending ≤ m.state.pending := by
  cases c with
  | primitive p => exact m.pending_runPrimitive limit p
  | word r => simp [runCell]
  | literal v => simp [runCell]

/-- A step adds no tokens to the input. -/
theorem pending_step (limit : Limit) (m : Machine) :
    (m.step limit).state.state.pending ≤ m.state.pending := by
  unfold step
  split
  · exact Nat.le_refl _
  split
  · exact Nat.le_refl _
  · exact pending_runCell limit _ _

end Machine

end ThreadedForth
