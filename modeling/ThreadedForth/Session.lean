import ThreadedForth.Dictionary.Edit
import ThreadedForth.Repl
/-!
# ThreadedForth.Session

What a host can do with a whole interpreter: feed it source, hold a conversation, move values,
run and list words, and edit its dictionary. `Session.perform` answers one command; a failed
command leaves the machine as the failure left it, and the next command goes on from there.
-/

namespace ThreadedForth

namespace Session

/-- A command of the host. -/
inductive Command where
  /-- Interpret a source text; a final one may not end inside a definition. -/
  | execute (source : String) (final : Bool)
  /-- Hold a conversation. -/
  | repl (answers : List Repl.Answer)
  /-- Push values, the first one deepest. -/
  | push (values : List Value)
  /-- Take the top value. -/
  | pop
  /-- Look at the top value. -/
  | peek
  /-- All values. -/
  | values
  /-- Run the word of a name. -/
  | run (name : String)
  /-- The source form of the word of a name. -/
  | see (name : String)
  /-- A summary of the stack. -/
  | summary
  /-- Forget what a failed run left behind. -/
  | abort
  /-- Run the word at a handle. -/
  | executeWord (handle : Int)
  /-- The source form of the word at a handle. -/
  | source (handle : Int)
  /-- Run the word whose reference is on top of the stack. -/
  | executeTop
  /-- Edit the dictionary. -/
  | edit (e : Dictionary.Edit)
  deriving DecidableEq, Repr

/-- Take a word reference and run its word. -/
def executeTop (limit : Limit) (m : Machine) : Outcome Machine Unit :=
  (m.state.popRef.mapState m.withState).bind fun r m => m.executeWord limit r.handle

/-- The source form of a word. -/
def sourceOf (w : Word) (m : Machine) : Outcome Machine Reply :=
  (Outcome.ofText? w.source? m).map .text

/-- The source form of the word at a handle. -/
def sourceAt (handle : Int) (m : Machine) : Outcome Machine Reply :=
  match m.state.dict.word? handle with
  | none => .fail (.noItem handle) m
  | some w => sourceOf w m

/-- Apply a stack operation to the stack of a machine. -/
def onStack {α : Type} (m : Machine) (f : Stack → Outcome Stack α) : Outcome Machine α :=
  (f m.state.stack).mapState fun stack => m.withState (m.state.withStack stack)

/-- Perform a command: the answer, and the prompts shown meanwhile. -/
def perform (limit : Limit) (m : Machine) : Command → List String × Outcome Machine Reply
  | .execute source final => ([], (m.execute limit final source).map fun _ => .nothing)
  | .repl answers =>
    let (prompts, outcome) := Repl.run limit false answers m
    (prompts, outcome.map fun _ => .nothing)
  | .push values => ([], onStack m fun s => .ok .nothing (values.reverse ++ s))
  | .pop => ([], (onStack m (Stack.pop (some "pop"))).map .value)
  | .peek => ([], (onStack m (Stack.peek (some "peek"))).map .value)
  | .values => ([], .ok (.values m.state.stack.reverse) m)
  | .run name => ([], (m.runName limit Dictionary.lookupOutside name).map fun _ => .nothing)
  | .see name =>
    ([], ((m.state.resolve name).mapState m.withState).bind fun w m => sourceOf w m)
  | .summary => ([], (Outcome.ofText? (Stack.summary? m.state.stack) m).map .text)
  | .abort => ([], .ok .nothing m.abort)
  | .executeWord handle => ([], (m.executeWord limit handle).map fun _ => .nothing)
  | .source handle => ([], sourceAt handle m)
  | .executeTop => ([], (executeTop limit m).map fun _ => .nothing)
  | .edit e => ([], (m.state.dict.perform e).mapState fun d => m.withState (m.state.withDict d))

/-- Take the text written so far out of a machine. -/
def takeOutput (m : Machine) : String × Machine :=
  (m.state.out, m.withState { m.state with out := "" })

end Session

end ThreadedForth
