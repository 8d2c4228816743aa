import ThreadedForth.Machine.Interpret
/-!
# ThreadedForth.Repl

The interactive loop. A line is interpreted as an open-ended piece of source, so a definition
may go on over several lines. A problem is reported and forgotten (`Machine.abort`), and the
loop goes on; any other fault ends it.

`Repl.turn` is one line, `Repl.run` a conversation over all the lines there will ever be, with
the prompts it showed.
-/

namespace ThreadedForth

namespace Repl

/-- What the user answers to a prompt. -/
inductive Answer where
  /-- A line of text. -/
  | line (text : String)
  /-- The interrupt key. -/
  | interrupt
  deriving DecidableEq, Repr

/-- How a turn ends. -/
inductive Turn where
  /-- The loop goes on. -/
  | next (m : Machine)
  /-- The user said goodbye. -/
  | bye (m : Machine)
  /-- A fault that is no problem of the program. -/
  | crash (f : Fault) (m : Machine)
  deriving DecidableEq, Repr

/-- What the loop says first. -/
def banner : String := "tcforth - threaded-code Forth\nType 'bye' to quit\n\n"

/-- The line that ends the loop. -/
def farewell : String := "bye"

/-- The prompt, which shows whether a definition is being compiled. -/
def prompt (m : Machine) : String :=
  match m.state.mode with
  | .compile => "...> "
  | .interpret => "OK> "

/-- The reaction to a line. -/
def turn (limit : Limit) (line : String) (m : Machine) : Turn :=
  if String.ofList (Text.trim line.toList) = farewell then .bye m
  else
    match m.execute limit false line with
    | .ok () m =>
      match m.state.mode with
      | .interpret => .next (m.write " ok\n")
      | .compile => .next m
    | .fail (.problem p _) m => .next (m.write ("\nError: " ++ p.message ++ "\n")).abort
    | .fail f m => .crash f m

/-- The reaction to the interrupt key. -/
def interrupt (m : Machine) : Machine := (m.write "\n(Ctrl+C) type 'bye' to quit\n").abort

/-- The reaction to an answer. -/
def Answer.react (limit : Limit) (m : Machine) : Answer → Turn
  | line text => turn limit text m
  | interrupt => .next (Repl.interrupt m)

/-- Converse until the answers run out: the prompts shown, one for each answer asked for, and
the outcome. With `echo` the prompts are part of the text written. -/
def converse (limit : Limit) (echo : Bool) :
    List Answer → Machine → List String × Outcome Machine Unit
  | answers, m =>
    let shown := prompt m
    let m := if echo then m.write shown else m
    match answers with
    | [] => ([shown], .ok () m)
    | a :: rest =>
      match a.react limit m with
      | .next m =>
        let (prompts, outcome) := converse limit echo rest m
        (shown :: prompts, outcome)
      | .bye m => ([shown], .ok () m)
      | .crash f m => ([shown], .fail f m)

/-- Run the interactive loop on all the answers it will get. -/
def run (limit : Limit) (echo : Bool) (answers : List Answer) (m : Machine) :
    List String × Outcome Machine Unit :=
  converse limit echo answers (m.write banner)

end Repl

end ThreadedForth
