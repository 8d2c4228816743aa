import ThreadedForth.Numeral
/-!
# ThreadedForth.Token

Tokens: the words of source text, each an integer or a name. Both keep the text they were
written as, because a token in name position counts by its text whatever it is (`: 7 8 ;`
defines a word called `7`). The end of the input is not a token; it is the empty list.
-/

namespace ThreadedForth

/-- A word of source text. -/
inductive Token where
  /-- An integer literal: its value, and the text it was written as. -/
  | int (value : Int) (text : String)
  /-- Any other word. -/
  | name (text : String)
  deriving DecidableEq, Repr

namespace Token

/-- The text the token was written as. -/
def text : Token → String
  | int _ text => text
  | name text => text

@[simp] theorem text_int (n : Int) (s : String) : (int n s).text = s := rfl
@[simp] theorem text_name (s : String) : (name s).text = s := rfl

/-- Classify a word: an integer if it is a literal, otherwise a name. -/
def ofWord (cs : List Char) : Token :=
  match Numeral.literal? cs with
  | some n => int n (String.ofList cs)
  | none => name (String.ofList cs)

/-- However it is classified, a word keeps its text. -/
@[simp] theorem text_ofWord (cs : List Char) : (ofWord cs).text = String.ofList cs := by
  unfold ofWord
  split <;> rfl

/-- The name that, right after the name of a new word, makes that word immediate. -/
def immediateMarker : String := "immediate"

/-- Is this token the marker of an immediate word? -/
def isImmediateMarker : Token → Bool
  | int _ _ => false
  | name text => text = immediateMarker

/-! ### Reading from unread tokens -/

/-- A way to read from the unread tokens. -/
inductive Read where
  /-- Take the first token. -/
  | next
  /-- Look at the first token and leave it. -/
  | peek
  deriving DecidableEq, Repr

/-- The token that was read, none at the end of the input, and what is left unread. -/
def Read.perform : Read → List Token → Option Token × List Token
  | next, tokens => (tokens.head?, tokens.tail)
  | peek, tokens => (tokens.head?, tokens)

/-- The tokens that a sequence of reads sees. -/
def reads : List Read → List Token → List (Option Token)
  | [], _ => []
  | r :: rs, tokens => (r.perform tokens).1 :: reads rs (r.perform tokens).2

end Token

end ThreadedForth
