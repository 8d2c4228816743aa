import ThreadedForth.CommandLine.Arguments
import ThreadedForth.Repl
import ThreadedForth.Source.File
/-!
# ThreadedForth.CommandLine.Run

What a run from the command line does. `plan` turns arguments and environment into a job for a
fresh machine; `runSource` and `converse` do a job; `run` puts them together for a run whose
files and input are all known beforehand.

A run ends with an exit status, or it crashes: a fault that is no problem of the program is not
reported but goes through.
-/

namespace ThreadedForth.CommandLine

/-- Why a run crashed. -/
inductive Crash where
  /-- A fault of the interpreter that is no problem of the program. -/
  | fault (f : Fault)
  /-- A file name that no system call would take. -/
  | badName
  deriving DecidableEq, Repr

/-- What a user is told about a crash. -/
def Crash.message : Crash → String
  | fault (.problem p _) => p.message
  | fault (.badIndex _) => "a word reference points at no word"
  | fault .blankLimit => "the limit on the nesting of calls is not a number"
  | fault .digitLimit => "a number has too many digits to be written"
  | badName => "a file name cannot hold a NUL character"

/-- How a run ends. -/
inductive Ending where
  /-- With an exit status. -/
  | exit (status : Nat)
  /-- With a crash. -/
  | crash (c : Crash)
  deriving DecidableEq, Repr

/-- What a run leaves behind. -/
structure Report where
  /-- How it ended. -/
  ending : Ending
  /-- The text on standard output. -/
  stdout : String := ""
  /-- The text on standard error. -/
  stderr : String := ""
  deriving DecidableEq, Repr

/-- What there is to do. -/
inductive Job where
  /-- Run source given on the command line. -/
  | inline (source : String)
  /-- Run the source in a file. -/
  | file (name : String)
  /-- Talk to the user. -/
  | conversation
  deriving DecidableEq, Repr

/-- A job with all that is needed to do it. -/
structure Plan where
  /-- The limit on the nesting of calls. -/
  limit : Limit
  /-- What is shown of the log. -/
  threshold : Level
  /-- The machine to do it on. -/
  machine : Machine
  /-- What there is to do. -/
  job : Job
  deriving DecidableEq, Repr

/-- The usage line. -/
def usageLine : String :=
  "usage: tcforth [-h] [-e SOURCE] [-v] [--max-depth MAX_DEPTH] [program]\n"

/-- The help text. -/
def helpText : String :=
  usageLine ++
  "\nThreaded-code Forth interpreter\n" ++
  "\npositional arguments:\n" ++
  "  program               Forth source file, or 'repl'\n" ++
  "\noptions:\n" ++
  "  -h, --help            show this help message and exit\n" ++
  "  -e SOURCE, --eval SOURCE\n" ++
  "                        Run SOURCE instead of a file\n" ++
  "  -v, --verbose         -v for INFO logging, -vv for DEBUG\n" ++
  "  --max-depth MAX_DEPTH\n" ++
  "                        Maximum word call nesting (default: $TCFORTH_MAX_DEPTH\n" ++
  "                        or 1000)\n"

/-- The report of a run that the arguments refuse. -/
def Refusal.report : Refusal → Report
  | help => { ending := .exit 0, stdout := helpText }
  | usage message =>
    { ending := .exit 2, stderr := usageLine ++ "tcforth: error: " ++ message ++ "\n" }

/-- What is shown of the log, by how often more of it was asked for. -/
def thresholdFor : Nat → Level
  | 0 => .warning
  | 1 => .info
  | _ => .debug

/-- What there is to do: source on the command line goes before a program, and without either,
or with the program `repl`, there is a conversation. -/
def Settings.job (s : Settings) : Job :=
  match s.source, s.program with
  | some source, _ => .inline source
  | none, none => .conversation
  | none, some name => if name = "repl" then .conversation else .file name

/-- Turn arguments and the limit in the environment into a plan. -/
def plan (arguments : List String) (environment : Option String) : Except Refusal Plan :=
  (readArguments arguments).map fun settings =>
    let (limit, warnings) :=
      match settings.maxDepth with
      | some limit => (limit, [])
      | none =>
        let (n, warnings) := environmentDepth environment
        (.atMost n, warnings)
    let state : State := { State.initial with log := State.initial.log ++ warnings }
    { limit
      threshold := thresholdFor settings.verbosity
      machine := { state }
      job := settings.job }

/-- How a problem is reported. -/
def problemReport (p : Problem) (trace : List String) : String :=
  "Error: " ++ p.kind.label ++ ": " ++ p.message ++ "\n" ++
    if trace.isEmpty then "" else "  in " ++ String.intercalate " -> " trace ++ "\n"

/-- The report of a machine, with a text after its log. -/
def reportOf (threshold : Level) (ending : Ending) (m : Machine) (text : String) : Report :=
  { ending, stdout := m.state.out, stderr := Event.render threshold m.state.log ++ text }

/-- Run source that came from `origin`. -/
def runSource (p : Plan) (origin source : String) : Report :=
  match p.machine.execute p.limit true source with
  | .ok () m =>
    let m := m.withState (m.state.record (.completed origin m.state.stack.length))
    reportOf p.threshold (.exit 0) m ""
  | .fail (.problem problem trace) m =>
    reportOf p.threshold (.exit 1) m (problemReport problem trace)
  | .fail f m => reportOf p.threshold (.crash (.fault f)) m ""

/-- Run a file that was read, or report that it was not. -/
def runFile (p : Plan) (name : String) (source : Except ReadFailure String) : Report :=
  match source with
  | .ok source =>
    let loaded := p.machine.state.record (.loaded name source.length)
    runSource { p with machine := p.machine.withState loaded } name source
  | .error .nullInName => reportOf p.threshold (.crash .badName) p.machine ""
  | .error failure =>
    reportOf p.threshold (.exit 1) p.machine
      ("Error: cannot read " ++ name ++ ": " ++ failure.message name ++ "\n")

/-- Converse with a user of whom all lines are known. -/
def converse (p : Plan) (input : String) : Report :=
  let answers := (splitLines input.toList).map fun l => Repl.Answer.line (String.ofList l)
  match (Repl.run p.limit true answers p.machine).2 with
  | .ok () m => reportOf p.threshold (.exit 0) m ""
  | .fail f m => reportOf p.threshold (.crash (.fault f)) m ""

/-- A whole run: arguments, the limit in the environment, the host's files and the user's input. -/
def run (arguments : List String) (environment : Option String) (files : Files)
    (input : String) : Report :=
  match plan arguments environment with
  | .error refusal => refusal.report
  | .ok p =>
    match p.job with
    | .inline source => runSource p "<eval>" source
    | .file name => runFile p name (files name >>= sourceOfBytes)
    | .conversation => converse p input

end ThreadedForth.CommandLine
