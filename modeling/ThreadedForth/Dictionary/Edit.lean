import ThreadedForth.Dictionary
import ThreadedForth.Stack.Operation
/-!
# ThreadedForth.Dictionary.Edit

What a host can do with a dictionary. A host is not held to the interpreter's discipline: it
may begin a definition inside another one, seal the active word, and refer to entries by any
handle, a negative one counting from the newest entry.
-/

namespace ThreadedForth

/-- How a host describes a cell to be appended. -/
inductive CellSource where
  /-- A literal of any value. -/
  | literal (v : Value)
  /-- A reference to the entry at a handle. -/
  | ref (handle : Int)
  /-- The cell at an index of the code of an entry. -/
  | copy (handle index : Int)
  deriving DecidableEq, Repr

namespace Dictionary

/-- An operation on a dictionary. -/
inductive Edit where
  /-- Append a finished word with one primitive, which does nothing. -/
  | addPrimitive (name : String) (immediate : Bool)
  /-- Begin a definition. -/
  | define (name : String)
  /-- Find the newest visible entry of a name, perhaps only below the active one. -/
  | lookup (name : String) (outside : Bool)
  /-- Make an entry immediate. -/
  | markImmediate (handle : Int)
  /-- Seal an entry. -/
  | close (handle : Int)
  /-- Finish the active definition. -/
  | finish
  /-- Abandon the active definition. -/
  | abandon
  /-- The visible names. -/
  | names
  /-- The number of entries. -/
  | size
  /-- An entry. -/
  | word (handle : Int)
  /-- A short description of an entry. -/
  | summary (handle : Int)
  /-- All entries from an index on. -/
  | dump (start : Int)
  /-- Append a cell to the code of an entry. -/
  | append (handle : Int) (cell : CellSource)
  deriving DecidableEq, Repr

/-- The cell a host describes; the index that points at nothing, if one does. -/
def cell (d : Dictionary) : CellSource → Except Int Cell
  | .literal v => .ok (.literal v)
  | .ref handle =>
    match d.word? handle with
    | none => .error handle
    | some w => .ok (.word w.ref)
  | .copy handle index =>
    match d.word? handle with
    | none => .error handle
    | some w =>
      match itemAt? w.code index with
      | none => .error index
      | some c => .ok c

/-- Change the entry at a signed handle. -/
def modifyAt (d : Dictionary) (handle : Int) (f : Word → Word) : Outcome Dictionary Reply :=
  match position? d.size handle with
  | none => .fail (.noItem handle) d
  | some k => .ok .nothing (d.modify k f)

/-- Add a cell to the entry at a signed handle. The entry is looked up before the cell is. -/
def append (d : Dictionary) (handle : Int) (cell : CellSource) : Outcome Dictionary Reply :=
  match position? d.size handle with
  | none => .fail (.noItem handle) d
  | some k =>
    match d.cell cell with
    | .error i => .fail (.noItem i) d
    | .ok c => (d.extend k c).map fun _ => .nothing

/-- Answer with something about the entry at a signed handle. -/
def inspectAt (d : Dictionary) (handle : Int) (f : Word → Reply) : Outcome Dictionary Reply :=
  match d.word? handle with
  | none => .fail (.noItem handle) d
  | some w => .ok (f w) d

/-- Perform an operation. -/
def perform (d : Dictionary) : Edit → Outcome Dictionary Reply
  | .addPrimitive name immediate => .ok (.count d.size) (d.addPrimitive (.inert name) immediate)
  | .define name => .ok (.count d.size) (d.define name)
  | .lookup name outside =>
    .ok (.handle? (if outside then d.lookupOutside name else d.lookup name)) d
  | .markImmediate handle => d.modifyAt handle Word.markImmediate
  | .close handle => d.modifyAt handle Word.close
  | .finish => .ok (.word? (d.active.bind (d.finish.entries[·]?))) d.finish
  | .abandon => .ok .nothing d.abandon
  | .names => .ok (.texts d.names) d
  | .size => .ok (.count d.size) d
  | .word handle => d.inspectAt handle fun w => .word? (some w)
  | .summary handle => d.inspectAt handle fun w => .text w.summary
  | .dump start => .ok (.words (d.entries.drop (sliceStart d.size start))) d
  | .append handle cell => d.append handle cell

end Dictionary

end ThreadedForth
