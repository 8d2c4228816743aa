import ThreadedForth.CommandLine.Run
/-!
# ThreadedForth.Main

The program: it reads the arguments, the environment, files and the user's lines, and shows
what `ThreadedForth.CommandLine` makes of them.
-/

namespace ThreadedForth.CommandLine

/-- The failure behind an error of the operating system. -/
def failureOf : IO.Error → ReadFailure
  | .permissionDenied .. => .denied
  | .inappropriateType _ code _ => if code = 21 then .isFolder else .notAFolder
  | .invalidArgument .. => .nameTooLong
  | _ => .missing

/-- Read a source file. -/
def readFile (name : String) : IO (Except ReadFailure String) := do
  if name.contains '\x00' then return .error .nullInName
  try
    return sourceOfBytes (← IO.FS.readBinFile name)
  catch e =>
    return .error (failureOf e)

/-- Show a report; the result is the exit status. -/
def showReport (r : Report) : IO UInt32 := do
  IO.print r.stdout
  IO.eprint r.stderr
  match r.ending with
  | .exit status => return UInt32.ofNat status
  | .crash c =>
    IO.eprintln ("fatal: " ++ c.message)
    return 1

/-- Show what a machine has written and logged so far, and forget it. -/
def showProgress (threshold : Level) (m : Machine) : IO Machine := do
  IO.print m.state.out
  (← IO.getStdout).flush
  IO.eprint (Event.render threshold m.state.log)
  return m.withState { m.state with out := "", log := [] }

/-- Answer the user's lines until they end or the user says goodbye. -/
partial def talk (p : Plan) (m : Machine) : IO UInt32 := do
  let m ← showProgress p.threshold (m.write (Repl.prompt m))
  let line ← (← IO.getStdin).getLine
  if line.isEmpty then return 0
  let text := if line.endsWith "\n" then (line.dropEnd 1).toString else line
  match Repl.turn p.limit text m with
  | .next m => talk p m
  | .bye _ => return 0
  | .crash f m => showReport (reportOf p.threshold (.crash (.fault f)) m "")

/-- Do what the arguments ask for. -/
def perform (arguments : List String) : IO UInt32 := do
  match plan arguments (← IO.getEnv "TCFORTH_MAX_DEPTH") with
  | .error refusal => showReport refusal.report
  | .ok p =>
    match p.job with
    | .inline source => showReport (runSource p "<eval>" source)
    | .file name => showReport (runFile p name (← readFile name))
    | .conversation => talk p (p.machine.write Repl.banner)

end ThreadedForth.CommandLine

/-- The program. -/
def main (arguments : List String) : IO UInt32 := ThreadedForth.CommandLine.perform arguments
