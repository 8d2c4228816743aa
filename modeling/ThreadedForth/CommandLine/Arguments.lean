import ThreadedForth.CallStack
import ThreadedForth.Event
/-!
# ThreadedForth.CommandLine.Arguments

The arguments of the command line: four flags and the name of a program.

Reading goes in two passes. First every argument is *classified* by its own form
(`Piece.classify`): a flag, perhaps with a value attached, or a plain value. Long flags may be
shortened as long as they stay unique, short ones may be written together, and after the
divider `--` everything is a plain value. Then the pieces are read in order
(`Progress.readPiece`): a flag that wants a value and has none attached takes the plain value
after it, the first other plain value is the program, and whatever is left over is an error.

The limit on how deep calls may nest is given on the command line, where a bad value is an error, or
in the environment, where it is ignored with a warning (`environmentDepth`).
-/

namespace ThreadedForth.CommandLine

/-! ### The limit on calls -/

/-- The limit when the user gives none. -/
def defaultDepth : Int := 1000

/-- What is wrong with a limit. -/
inductive BadDepth where
  /-- It is not an integer. -/
  | notAnInteger
  /-- It is below one. -/
  | tooSmall (n : Int)
  deriving DecidableEq, Repr

/-- The wording on the command line, for a limit written as `text`. -/
def BadDepth.message (text : String) : BadDepth → String
  | notAnInteger => "not an integer: " ++ Text.quoted text
  | tooSmall n => "must be at least 1: " ++ Numeral.decimal n

/-- The wording in a warning. -/
def BadDepth.warning : BadDepth → String
  | notAnInteger => "not an integer"
  | tooSmall _ => "must be positive"

/-- Read a limit. -/
def readDepth (text : String) : Except BadDepth Int :=
  match Numeral.setting? text with
  | none => .error .notAnInteger
  | some n => if n < 1 then .error (.tooSmall n) else .ok n

/-- The limit that the environment gives, and the warnings that go with it. -/
def environmentDepth (value : Option String) : Int × List Event :=
  match value with
  | none => (defaultDepth, [])
  | some text =>
    if text.isEmpty then (defaultDepth, [])
    else
      match readDepth text with
      | .ok n => (n, [])
      | .error bad => (defaultDepth, [.ignoredDepth text bad.warning])

/-! ### Flags -/

/-- A flag. -/
inductive Flag where
  /-- Show help. -/
  | help
  /-- Run the value as source. -/
  | eval
  /-- Log more. -/
  | verbose
  /-- Limit the nesting of calls. -/
  | maxDepth
  deriving DecidableEq, Repr

namespace Flag

/-- Does the flag want a value? -/
def wantsValue : Flag → Bool
  | help | verbose => false
  | eval | maxDepth => true

/-- The flag in error messages. -/
def label : Flag → String
  | help => "-h/--help"
  | eval => "-e/--eval"
  | verbose => "-v/--verbose"
  | maxDepth => "--max-depth"

/-- How flags are spelled, in the order in which they are listed. -/
def spellings : List (String × Flag) :=
  [("-h", help), ("--help", help), ("-e", eval), ("--eval", eval), ("-v", verbose),
   ("--verbose", verbose), ("--max-depth", maxDepth)]

/-- The flag of an exact spelling. -/
def ofSpelling? (s : String) : Option Flag := spellings.lookup s

/-- The flag of a single letter. -/
def ofLetter? (c : Char) : Option Flag := ofSpelling? (String.ofList ['-', c])

end Flag

/-- Why the arguments give nothing to run. -/
inductive Refusal where
  /-- Help was asked for. -/
  | help
  /-- The arguments are wrong. -/
  | usage (message : String)
  deriving DecidableEq, Repr

namespace Refusal

/-- Something is wrong with the use of a flag. -/
def aboutFlag (f : Flag) (text : String) : Refusal := usage ("argument " ++ f.label ++ ": " ++ text)

/-- A flag without the value it wants. -/
def valueMissing (f : Flag) : Refusal := aboutFlag f "expected one argument"

/-- A flag with a value it does not want. -/
def valueIgnored (f : Flag) (value : String) : Refusal :=
  aboutFlag f ("ignored explicit argument " ++ Text.quoted value)

/-- A shortened flag that could be several. -/
def ambiguous (argument : String) (candidates : List String) : Refusal :=
  usage ("ambiguous option: " ++ argument ++ " could match " ++ String.intercalate ", " candidates)

/-- Arguments that nothing accepts. -/
def leftOver (arguments : List String) : Refusal :=
  usage ("unrecognized arguments: " ++ String.intercalate " " arguments)

end Refusal

/-! ### Classifying arguments -/

/-- An argument, classified by its form. -/
inductive Piece where
  /-- A plain value. -/
  | value (text : String)
  /-- The divider `--`. -/
  | divider
  /-- A flag, spelled with one dash if `short`, and the value attached to it. -/
  | flag (f : Flag) (short : Bool) (attached : Option String)
  /-- Something that looks like a flag and is none. -/
  | stray (text : String)
  deriving DecidableEq, Repr

/-- The divider. -/
def divider : String := "--"

/-- The part before the first equals sign, and the part after it if there is one. -/
def splitEquals (cs : List Char) : List Char × Option (List Char) :=
  match cs.dropWhile (· ≠ '=') with
  | [] => (cs, none)
  | _ :: after => (cs.takeWhile (· ≠ '='), some after)

/-- One or more decimal digits of any script. -/
def allDigits (cs : List Char) : Bool :=
  !cs.isEmpty && cs.all fun c => (Text.digitValue? c).isSome

/-- Is this, after a dash, a negative number? A fraction may have a point, and a line feed may
follow. -/
def isNumberBody (cs : List Char) : Bool :=
  let cs := if cs.getLast? = some '\n' then cs.dropLast else cs
  let isDigit (c : Char) : Bool := (Text.digitValue? c).isSome
  match cs.dropWhile isDigit with
  | [] => !cs.isEmpty
  | c :: fraction => c = '.' && allDigits fraction

/-- An argument that starts with a dash and is no flag: a value if it is a negative number or
holds a space. -/
def Piece.notAFlag (argument : String) : Piece :=
  let cs := argument.toList
  if isNumberBody cs.tail || cs.contains ' ' then .value argument else .stray argument

/-- Classify an argument that starts with two dashes and is no exact spelling. -/
def Piece.classifyLong (argument : String) : Except Refusal Piece :=
  let (stem, attached) := splitEquals argument.toList
  match Flag.spellings.filter (fun s => stem.isPrefixOf s.1.toList) with
  | [] => .ok (.notAFlag argument)
  | [(_, f)] => .ok (.flag f false (attached.map String.ofList))
  | several => .error (.ambiguous argument (several.map Prod.fst))

/-- Classify an argument that starts with one dash and is no exact spelling: a letter flag with
whatever follows attached. -/
def Piece.classifyShort (argument : String) (letter : Char) (attached : List Char) : Piece :=
  match Flag.ofLetter? letter with
  | some f => .flag f true (some (String.ofList attached))
  | none => .notAFlag argument

/-- Classify an argument before the divider. -/
def Piece.classify (argument : String) : Except Refusal Piece :=
  match argument.toList with
  | '-' :: second :: more =>
    let short := second ≠ '-'
    match Flag.ofSpelling? argument with
    | some f => .ok (.flag f short none)
    | none =>
      let (stem, attached) := splitEquals argument.toList
      match attached, Flag.ofSpelling? (String.ofList stem) with
      | some after, some f => .ok (.flag f short (some (String.ofList after)))
      | _, _ =>
        if short then .ok (classifyShort argument second more) else classifyLong argument
  | _ => .ok (.value argument)

/-- Classify all arguments. -/
def classifyAll : List String → Except Refusal (List Piece)
  | [] => .ok []
  | argument :: rest =>
    if argument = divider then .ok (.divider :: rest.map .value)
    else
      match Piece.classify argument with
      | .error r => .error r
      | .ok piece => (classifyAll rest).map (piece :: ·)

/-! ### Reading the pieces -/

/-- A flag in use, with its value if it wants one. -/
structure Use where
  /-- The flag. -/
  flag : Flag
  /-- Its value, empty if it wants none. -/
  value : String := ""
  deriving DecidableEq, Repr

/-- What one flag argument stands for: flags in use, and perhaps one that still wants its value
from the next argument. -/
structure Group where
  /-- The flags in use. -/
  uses : List Use
  /-- The flag that wants a value. -/
  wanting : Option Flag
  deriving DecidableEq, Repr

/-- A flag with nothing attached. -/
def Group.plain (f : Flag) : Group :=
  if f.wantsValue then ⟨[], some f⟩ else ⟨[⟨f, ""⟩], none⟩

/-- Flags written together after one dash: those without a value, and then one that takes the
rest as its value. -/
def Group.ofLetters (f : Flag) : List Char → Except Refusal Group
  | [] => .ok (plain f)
  | c :: rest =>
    if f.wantsValue then .ok ⟨[⟨f, String.ofList (c :: rest)⟩], none⟩
    else
      match Flag.ofLetter? c with
      | none => .error (.valueIgnored f (String.ofList (c :: rest)))
      | some g =>
        (ofLetters g rest).map fun group => { group with uses := ⟨f, ""⟩ :: group.uses }

/-- What a flag argument stands for. -/
def Group.ofFlag (f : Flag) (short : Bool) (attached : Option String) : Except Refusal Group :=
  match attached with
  | none => .ok (plain f)
  | some value =>
    if f.wantsValue then .ok ⟨[⟨f, value⟩], none⟩
    else if short && !value.isEmpty then ofLetters f value.toList
    else .error (.valueIgnored f value)

/-- What the arguments ask for. -/
structure Settings where
  /-- The name of the program. -/
  program : Option String := none
  /-- Source to be run instead of a program. -/
  source : Option String := none
  /-- How often more logging was asked for. -/
  verbosity : Nat := 0
  /-- The limit on the nesting of calls. -/
  maxDepth : Option Limit := none
  deriving DecidableEq, Repr

/-- Put a flag in use. A value that is just the divider counts as no value at all: source is then
empty, and a limit blank. -/
def Settings.apply (s : Settings) (u : Use) : Except Refusal Settings :=
  match u.flag with
  | .help => .error .help
  | .verbose => .ok { s with verbosity := s.verbosity + 1 }
  | .eval => .ok { s with source := some (if u.value = divider then "" else u.value) }
  | .maxDepth =>
    if u.value = divider then .ok { s with maxDepth := some .blank }
    else
      match readDepth u.value with
      | .ok n => .ok { s with maxDepth := some (.atMost n) }
      | .error bad => .error (.aboutFlag .maxDepth (bad.message u.value))

/-- Put flags in use, one after another. -/
def Settings.applyAll (s : Settings) (uses : List Use) : Except Refusal Settings :=
  uses.foldlM Settings.apply s

/-- Whether the program has been read. -/
inductive ProgramPlace where
  /-- The next plain value is the program. -/
  | unread
  /-- The program was the argument just read, and a divider right after it belongs to it. -/
  | justRead
  /-- The program was read. -/
  | taken
  deriving DecidableEq, Repr

/-- What is known after some of the pieces. -/
structure Progress where
  /-- What the arguments ask for so far. -/
  settings : Settings := {}
  /-- Whether the program has been read. -/
  place : ProgramPlace := .unread
  /-- A flag that wants the next piece as its value, and the flags written together with it. -/
  waiting : Option (List Use × Flag) := none
  /-- Arguments that nothing accepted. -/
  leftOver : List String := []
  deriving DecidableEq, Repr

namespace Progress

/-- The program is no longer the argument just read. -/
def settle (p : Progress) : Progress :=
  match p.place with
  | .justRead => { p with place := .taken }
  | _ => p

/-- Put an argument with those that nothing accepted. -/
def leave (p : Progress) (argument : String) : Progress :=
  { p with leftOver := p.leftOver ++ [argument] }

/-- Put flags in use. -/
def use (p : Progress) (uses : List Use) : Except Refusal Progress :=
  (p.settings.applyAll uses).map fun settings => { p with settings }

/-- A plain value is the program or left over. -/
def readValue (p : Progress) (text : String) : Progress :=
  match p.place with
  | .unread => { p with settings := { p.settings with program := some text }, place := .justRead }
  | _ => p.settle.leave text

/-- A divider next to the program, or before it, has done its work; any other is left over. -/
def readDivider (p : Progress) : Progress :=
  match p.place with
  | .unread => p
  | .justRead => p.settle
  | .taken => p.leave divider

/-- Flags are put in use once the last of them has its value. -/
def readGroup (p : Progress) (group : Group) : Except Refusal Progress :=
  match group.wanting with
  | some f => .ok { p with waiting := some (group.uses, f) }
  | none => p.use group.uses

/-- Read a piece. -/
def readPiece (p : Progress) (piece : Piece) : Except Refusal Progress :=
  match p.waiting, piece with
  | some (uses, f), .value text => use { p with waiting := none } (uses ++ [⟨f, text⟩])
  | some (_, f), _ => .error (.valueMissing f)
  | none, .value text => .ok (p.readValue text)
  | none, .divider => .ok p.readDivider
  | none, .stray text => .ok (p.settle.leave text)
  | none, .flag f short attached => do p.settle.readGroup (← Group.ofFlag f short attached)

/-- What the arguments ask for, if nothing is missing and nothing is left over. -/
def finish (p : Progress) : Except Refusal Settings :=
  match p.waiting with
  | some (_, f) => .error (.valueMissing f)
  | none => if p.leftOver.isEmpty then .ok p.settings else .error (.leftOver p.leftOver)

end Progress

/-- Read the arguments of the command line. -/
def readArguments (arguments : List String) : Except Refusal Settings := do
  let pieces ← classifyAll arguments
  let p ← pieces.foldlM Progress.readPiece {}
  p.finish

end ThreadedForth.CommandLine
