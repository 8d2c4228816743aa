import ThreadedForth.Text
/-!
# ThreadedForth.Numeral

Integers as text. Integers are unbounded, but one of more than `digitLimit` decimal digits is
refused a decimal form, in both directions: it is neither written (`written?`) nor read.

Two sorts of text are read as integers.

* A *literal* of source text (`literal?`) is an optional sign, an optional base marker and a *body*:
  `42`, `-7`, `0xff`, `-0b101`, `0o17`. The body is ASCII without an underscore, does not start with a
  sign, and is read by `Base.body?`, which forgives three things: padding around it, one sign after
  the padding, and a marker of the base already chosen (`0x0x10` is sixteen). Every text `literal?`
  refuses is an ordinary name.
* A *setting* (`setting?`) is the value of a flag or of an environment variable. It is decimal and
  read more generously: digits of any script count, a blank outside ASCII counts as padding, and a
  single underscore may stand between two digits.
-/

namespace ThreadedForth.Numeral

/-! ### Decimal forms -/

/-- The most decimal digits, the sign not counted, that a number may have as text. -/
def digitLimit : Nat := 4300

/-- The decimal form of an integer. -/
def decimal (n : Int) : String :=
  if n < 0 then "-" ++ n.natAbs.repr else n.natAbs.repr

/-- The least number with more than `digitLimit` decimal digits. -/
def tooLarge : Nat := Nat.pow 10 digitLimit

/-- The decimal form of an integer of at most `digitLimit` digits. -/
def written? (n : Int) : Option String :=
  if n.natAbs < tooLarge then some (decimal n) else none

/-- A number is written in decimal, unless it has too many digits. -/
theorem written?_eq_some_iff {n : Int} {s : String} :
    written? n = some s ↔ n.natAbs < tooLarge ∧ decimal n = s := by
  by_cases h : n.natAbs < tooLarge <;> simp [written?, h]

theorem written?_eq_none_iff {n : Int} : written? n = none ↔ tooLarge ≤ n.natAbs := by
  by_cases h : n.natAbs < tooLarge
  · simp [written?, h]
  · simp [written?, h]
    omega

/-- Powers of ten count digits. -/
theorem lt_pow_iff_length_le (n : Nat) {k : Nat} (hk : 0 < k) :
    n < Nat.pow 10 k ↔ (Nat.toDigits 10 n).length ≤ k :=
  (Nat.length_toDigits_le_iff (by decide) hk).symm

/-- A number is too large exactly if it has more digits than the limit. -/
theorem lt_tooLarge_iff (n : Nat) :
    n < tooLarge ↔ (Nat.toDigits 10 n).length ≤ digitLimit := by
  unfold tooLarge
  exact @lt_pow_iff_length_le n digitLimit (by decide)

/-! ### Literals -/

/-- The bases a literal can be written in. -/
inductive Base where
  /-- Marker `0b`. -/
  | binary
  /-- Marker `0o`. -/
  | octal
  /-- No marker. -/
  | decimal
  /-- Marker `0x`. -/
  | hexadecimal
  deriving DecidableEq, Repr

namespace Base

/-- How many digits the base has. -/
def radix : Base → Nat
  | binary => 2
  | octal => 8
  | decimal => 10
  | hexadecimal => 16

/-- The base announced by the letter after a leading zero, in either case. -/
def ofMarker? (c : Char) : Option Base :=
  if c = 'b' || c = 'B' then some binary
  else if c = 'o' || c = 'O' then some octal
  else if c = 'x' || c = 'X' then some hexadecimal
  else none

/-- A leading base marker and what follows it; without a marker the base is decimal. -/
def split : List Char → Base × List Char
  | '0' :: c :: rest =>
    match ofMarker? c with
    | some b => (b, rest)
    | none => (decimal, '0' :: c :: rest)
  | cs => (decimal, cs)

/-- Drop a marker of this very base. -/
def dropMarker (b : Base) : List Char → List Char
  | '0' :: c :: rest => if ofMarker? c = some b then rest else '0' :: c :: rest
  | cs => cs

/-- The value of a digit of the base, letters in either case. -/
def digit? (b : Base) (c : Char) : Option Nat :=
  let value :=
    if '0' ≤ c && c ≤ '9' then some (c.toNat - '0'.toNat)
    else if 'a' ≤ c && c ≤ 'f' then some (c.toNat - 'a'.toNat + 10)
    else if 'A' ≤ c && c ≤ 'F' then some (c.toNat - 'A'.toNat + 10)
    else none
  value.filter (· < b.radix)

/-- The value of digits that follow digits worth `n`. -/
def digitsFrom? (b : Base) (n : Nat) : List Char → Option Nat
  | [] => some n
  | c :: cs =>
    match b.digit? c with
    | some d => b.digitsFrom? (b.radix * n + d) cs
    | none => none

/-- The value of one or more digits. -/
def digits? (b : Base) : List Char → Option Nat
  | [] => none
  | cs => b.digitsFrom? 0 cs

/-- Only decimal digits are limited in number. -/
def tooLong (b : Base) (cs : List Char) : Bool := b = decimal && digitLimit < cs.length

end Base

/-- A leading sign, `true` for minus, and what follows it. -/
def splitSign : List Char → Bool × List Char
  | '-' :: cs => (true, cs)
  | '+' :: cs => (false, cs)
  | cs => (false, cs)

/-- The number with the sign `negative`. -/
def signed (negative : Bool) (n : Int) : Int := if negative then -n else n

/-- Padding that may stand around the body of a number: U+0009 to U+000D and the space. -/
def isPadding (c : Char) : Bool := ('\t' ≤ c && c ≤ '\r') || c = ' '

/-- Drop padding at both ends. -/
def dropPadding (cs : List Char) : List Char :=
  ((cs.dropWhile isPadding).reverse.dropWhile isPadding).reverse

/-- Read the body of a number in a base: padding, a sign, a marker of the same base, digits. -/
def Base.body? (b : Base) (cs : List Char) : Option Int :=
  let (negative, cs) := splitSign (dropPadding cs)
  let digits := b.dropMarker cs
  if b.tooLong digits then none else (b.digits? digits).map fun n => signed negative n

/-- What rules a body out before it is read: a leading sign, an underscore, a character
outside ASCII. -/
def badBody (cs : List Char) : Bool :=
  cs.head?.any (fun c => c = '+' || c = '-') || cs.any (fun c => c = '_' || 128 ≤ c.toNat)

/-- Read an integer literal. -/
def literal? (text : List Char) : Option Int :=
  let (negative, cs) := splitSign text
  let (base, body) := Base.split cs
  if badBody body then none else (base.body? body).map (signed negative)

/-! ### Equations -/

@[simp] theorem signed_true (n : Int) : signed true n = -n := rfl
@[simp] theorem signed_false (n : Int) : signed false n = n := rfl

@[simp] theorem Base.digitsFrom?_nil (b : Base) (n : Nat) : b.digitsFrom? n [] = some n := rfl

theorem Base.digitsFrom?_cons (b : Base) (n : Nat) (c : Char) (cs : List Char) :
    b.digitsFrom? n (c :: cs) = (b.digit? c).bind fun d => b.digitsFrom? (b.radix * n + d) cs := by
  rw [Base.digitsFrom?]
  cases b.digit? c <;> rfl

/-! ### Settings -/

/-- The ASCII character that stands for `c`: a space for a blank outside ASCII, an ASCII digit
for a digit of another script. -/
def asciiForm? (c : Char) : Option Char :=
  if c.toNat < 127 then some c
  else if Text.isBlank c then some ' '
  else (Text.digitValue? c).map fun d => Char.ofNat ('0'.toNat + d)

/-- Decimal digits in which single underscores may stand between two digits. -/
def groupedDigits? : List Char → Option (List Char)
  | [] => none
  | [c] => if (Base.decimal.digit? c).isSome then some [c] else none
  | c :: '_' :: cs =>
    if (Base.decimal.digit? c).isSome then (groupedDigits? cs).map (c :: ·) else none
  | c :: cs => if (Base.decimal.digit? c).isSome then (groupedDigits? cs).map (c :: ·) else none

/-- Read an integer setting. -/
def setting? (text : String) : Option Int := do
  let ascii ← text.toList.mapM asciiForm?
  let (negative, cs) := splitSign (dropPadding ascii)
  let digits ← groupedDigits? cs
  if Base.decimal.tooLong digits then none
  else (Base.decimal.digits? digits).map fun n => signed negative n

end ThreadedForth.Numeral
