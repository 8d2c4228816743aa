import ThreadedForth.Text
/-!
# ThreadedForth.Event

Events worth a line in the log. An event has a level and a source, and is shown only if the log
is asked for that level or a lower one (`Event.render`).
-/

namespace ThreadedForth

/-- How important an event is. -/
inductive Level where
  /-- Of interest to who traces the interpreter. -/
  | debug
  /-- Of interest to who asks what was run. -/
  | info
  /-- Always of interest. -/
  | warning
  deriving DecidableEq, Repr

namespace Level

/-- Levels in order of importance. -/
def rank : Level → Nat
  | debug => 0
  | info => 1
  | warning => 2

/-- The level's name in a log line. -/
def label : Level → String
  | debug => "DEBUG"
  | info => "INFO"
  | warning => "WARNING"

end Level

/-- An event worth a line in the log. -/
inductive Event where
  /-- The primitives were registered. -/
  | registered (count : Nat)
  /-- A definition was begun. -/
  | defining (name : String) (handle : Nat)
  /-- A definition was finished. -/
  | finished (name : String) (cells : Nat)
  /-- A definition was abandoned. -/
  | abandoned (name : String)
  /-- An immediate word ran while another word was being compiled. -/
  | ranImmediate (name compiling : String)
  /-- A source file was read. -/
  | loaded (file : String) (length : Nat)
  /-- A source ran to its end. -/
  | completed (origin : String) (depth : Nat)
  /-- The depth limit of the environment was ignored. -/
  | ignoredDepth (value reason : String)
  deriving DecidableEq, Repr

namespace Event

/-- How important the event is. -/
def level : Event → Level
  | registered _ | defining _ _ | finished _ _ | abandoned _ | ranImmediate _ _ => .debug
  | loaded _ _ | completed _ _ => .info
  | ignoredDepth _ _ => .warning

/-- The part of the interpreter the event comes from. -/
def source : Event → String
  | registered _ => "tcforth.repl"
  | defining _ _ | finished _ _ | abandoned _ => "tcforth.dictionary"
  | ranImmediate _ _ => "tcforth.compiler"
  | loaded _ _ | completed _ _ | ignoredDepth _ _ => "tcforth"

/-- What happened. -/
def text : Event → String
  | registered count => "registered " ++ count.repr ++ " primitives"
  | defining name handle =>
    "defining " ++ Text.quoted name ++ " (handle " ++ handle.repr ++ ")"
  | finished name cells => "finished " ++ Text.quoted name ++ " with " ++ cells.repr ++ " cells"
  | abandoned name => "abandoned definition of " ++ Text.quoted name
  | ranImmediate name compiling =>
    "running immediate " ++ Text.quoted name ++ " while compiling " ++ Text.quoted compiling
  | loaded file length => "loaded " ++ file ++ " (" ++ length.repr ++ " bytes)"
  | completed origin depth =>
    "finished " ++ origin ++ ", " ++ depth.repr ++ " values left on the stack"
  | ignoredDepth value reason =>
    "ignoring TCFORTH_MAX_DEPTH=" ++ Text.quoted value ++ ": " ++ reason

/-- The log line of the event. -/
def line (e : Event) : String :=
  e.level.label ++ " " ++ e.source ++ ": " ++ e.text ++ "\n"

/-- The log of events, **newest first**, at a level: a line for every event at least as
important, in the order of time. -/
def render (threshold : Level) (events : List Event) : String :=
  String.join ((events.reverse.filter (threshold.rank ≤ ·.level.rank)).map line)

end Event

end ThreadedForth
