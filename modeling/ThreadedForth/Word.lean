import ThreadedForth.Primitive
import ThreadedForth.Token
import ThreadedForth.Value
/-!
# ThreadedForth.Word

Threaded code: a word is a name with a list of cells, and a cell is a built-in operation, a
reference to another word or a literal. A word under construction grows at the end of its code;
once it is sealed its code never changes again.
-/

namespace ThreadedForth

/-- A cell of threaded code. -/
inductive Cell where
  /-- Run a built-in operation. -/
  | primitive (p : Primitive)
  /-- Call a word. -/
  | word (r : WordRef)
  /-- Push a value. -/
  | literal (v : Value)
  deriving DecidableEq, Repr

/-- A dictionary entry. -/
structure Word where
  /-- The name it is looked up by. -/
  name : String
  /-- The index of the entry in its dictionary. -/
  handle : Nat
  /-- Does it run even while a definition is being compiled? -/
  immediate : Bool := false
  /-- Is it kept from being looked up? -/
  hidden : Bool := false
  /-- Is its code final? -/
  sealed : Bool := false
  /-- Its code. -/
  code : List Cell := []
  deriving DecidableEq, Repr

/-- The source form of a cell. A primitive has no source form of its own and is shown in angle
brackets. -/
def Cell.source? : Cell → Option String
  | primitive p => some ("<primitive " ++ p.name ++ ">")
  | word r => some r.name
  | literal v => v.describe?

namespace Word

/-- A reference to the word. -/
def ref (w : Word) : WordRef := ⟨w.handle, w.name⟩

/-- Can a look-up of `name` find the word? -/
def answersTo (w : Word) (name : String) : Bool := w.name = name && !w.hidden

/-- The word with its code made final. -/
def close (w : Word) : Word := { w with sealed := true }

/-- The word out of sight, and its code final. -/
def bury (w : Word) : Word := { w with hidden := true, sealed := true }

/-- The word made immediate. -/
def markImmediate (w : Word) : Word := { w with immediate := true }

/-- The word with a cell added at the end of its code. -/
def push (w : Word) (c : Cell) : Word := { w with code := w.code ++ [c] }

/-- The source form of the word: a definition that would compile it. -/
def source? (w : Word) : Option String :=
  (w.code.mapM Cell.source?).map fun cells =>
    String.intercalate " "
      ([":", w.name] ++ (if w.immediate then [Token.immediateMarker] else []) ++ cells ++ [";"])

/-- A short description: name, handle and number of cells. -/
def summary (w : Word) : String :=
  "Word(" ++ Text.quoted w.name ++ ", handle=" ++ w.handle.repr ++ ", cells=" ++
    w.code.length.repr ++ ")"

@[simp] theorem handle_ref (w : Word) : w.ref.handle = w.handle := rfl
@[simp] theorem name_ref (w : Word) : w.ref.name = w.name := rfl

@[simp] theorem code_close (w : Word) : w.close.code = w.code := rfl

end Word

end ThreadedForth
