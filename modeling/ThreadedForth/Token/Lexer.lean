import ThreadedForth.Text
import ThreadedForth.Token
/-!
# ThreadedForth.Token.Lexer

From source text to tokens, by way of a decomposition that loses nothing: `scan` splits a text
into *lexemes* (single blanks, line comments, parenthesised comments, words), one after the other off
its front (`Lexeme.first_append`), and `tokenize` keeps the words.

A comment starts only where a lexeme starts, and only if its opener stands alone: `\` or `(`
followed by a blank or by the end of the text. Parentheses inside a comment nest wherever they
stand; outside one they are ordinary characters of words.
-/

namespace ThreadedForth

/-- A stretch of source text. -/
inductive Lexeme where
  /-- One blank character. -/
  | blank (c : Char)
  /-- A line comment, from its backslash up to the line's end, which is not part of it. -/
  | lineComment (text : List Char)
  /-- A parenthesised comment, both parentheses included. -/
  | parenComment (text : List Char)
  /-- A longest run of characters that are not blank. -/
  | word (text : List Char)
  deriving DecidableEq, Repr

namespace Lexeme

/-- The characters of a lexeme. -/
def chars : Lexeme → List Char
  | blank c => [c]
  | lineComment text => text
  | parenComment text => text
  | word text => text

/-- The token a lexeme gives: only words give one. -/
def token? : Lexeme → Option Token
  | word text => some (Token.ofWord text)
  | _ => none

/-- Does an opener stand alone before this text? -/
def standsAlone (rest : List Char) : Bool := rest.head?.all Text.isBlank

/-- Split the text inside `depth` open parentheses after the one that closes them all; without
one, all of it is inside. -/
def splitNested : Nat → List Char → List Char × List Char
  | 0, cs => ([], cs)
  | _ + 1, [] => ([], [])
  | depth + 1, c :: cs =>
    let deeper := if c = '(' then depth + 2 else if c = ')' then depth else depth + 1
    let (inside, after) := splitNested deeper cs
    (c :: inside, after)

/-- The first lexeme of the text `c :: rest`, and what follows it. -/
def first (c : Char) (rest : List Char) : Lexeme × List Char :=
  if Text.isBlank c then (blank c, rest)
  else if c = '\\' && standsAlone rest then
    (lineComment (c :: rest.takeWhile (· ≠ '\n')), rest.dropWhile (· ≠ '\n'))
  else if c = '(' && standsAlone rest then
    (parenComment (c :: (splitNested 1 rest).1), (splitNested 1 rest).2)
  else
    (word (c :: rest.takeWhile (!Text.isBlank ·)), rest.dropWhile (!Text.isBlank ·))

/-- Splitting off a nested comment loses no character. -/
theorem splitNested_append (depth : Nat) (cs : List Char) :
    (splitNested depth cs).1 ++ (splitNested depth cs).2 = cs := by
  fun_induction splitNested depth cs <;> simp_all

/-- Nothing is lost by splitting off the first lexeme. -/
theorem first_append (c : Char) (rest : List Char) :
    (first c rest).1.chars ++ (first c rest).2 = c :: rest := by
  unfold first
  split
  · rfl
  split
  · simp [chars]
  split
  · simp [chars, splitNested_append]
  · simp [chars]

/-- A lexeme has at least one character. -/
theorem first_chars_pos (c : Char) (rest : List Char) : 0 < (first c rest).1.chars.length := by
  unfold first
  split
  · simp [chars]
  split
  · simp [chars]
  split <;> simp [chars]

/-- What follows the first lexeme is no longer than what follows its first character. -/
theorem first_rest_length (c : Char) (rest : List Char) :
    (first c rest).2.length ≤ rest.length := by
  have h := congrArg List.length (first_append c rest)
  have := first_chars_pos c rest
  simp at h
  omega

end Lexeme

/-- Split a text into lexemes. -/
def scan : List Char → List Lexeme
  | [] => []
  | c :: rest => (Lexeme.first c rest).1 :: scan (Lexeme.first c rest).2
termination_by cs => cs.length
decreasing_by
  have := Lexeme.first_rest_length c rest
  simp
  omega

@[simp] theorem scan_nil : scan [] = [] := by
  rw [scan]

/-- A text is its first lexeme and what is scanned after it. -/
theorem scan_cons (c : Char) (rest : List Char) :
    scan (c :: rest) = (Lexeme.first c rest).1 :: scan (Lexeme.first c rest).2 := by
  rw [scan]

/-- The tokens of a source text. -/
def tokenize (source : String) : List Token := (scan source.toList).filterMap Lexeme.token?

end ThreadedForth
