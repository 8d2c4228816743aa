import ThreadedForth.Text
/-!
# ThreadedForth.Source.Utf8

Strict UTF-8. Valid bytes are decoded by `String.fromUTF8?`; for the others `diagnose` finds the
first bytes that cannot be part of a text and says why.
-/

namespace ThreadedForth.Utf8

/-- Why bytes are not UTF-8. -/
inductive Reason where
  /-- No character starts with this byte. -/
  | invalidStart
  /-- A character was begun, and the next byte cannot continue it. -/
  | invalidContinuation
  /-- A character was begun, and the bytes ended. -/
  | unexpectedEnd
  deriving DecidableEq, Repr

/-- The wording of a reason. -/
def Reason.text : Reason → String
  | invalidStart => "invalid start byte"
  | invalidContinuation => "invalid continuation byte"
  | unexpectedEnd => "unexpected end of data"

/-- The first place where bytes are not UTF-8. -/
structure Flaw where
  /-- How many bytes stand before it. -/
  position : Nat
  /-- The first byte of the character that was begun, and the bytes that rightly continued it. -/
  bytes : List UInt8
  /-- What is wrong there. -/
  reason : Reason
  deriving DecidableEq, Repr

/-- The wording of a flaw: a single byte is shown, of several the range. -/
def Flaw.message (f : Flaw) : String :=
  let place :=
    match f.bytes with
    | [b] => "byte 0x" ++ String.ofList (Text.hexadecimal 2 b.toNat) ++ " in position " ++
        f.position.repr
    | bytes => "bytes in position " ++ f.position.repr ++ "-" ++
        (f.position + bytes.length - 1).repr
  "'utf-8' codec can't decode " ++ place ++ ": " ++ f.reason.text

/-- What has to follow the first byte of a character: how many bytes, and between which bounds
the first of them lies. Those after it lie between 0x80 and 0xBF. -/
structure Lead where
  /-- How many bytes follow. -/
  extra : Nat
  /-- The least byte that may come next. -/
  low : UInt8
  /-- The greatest byte that may come next. -/
  high : UInt8
  deriving DecidableEq, Repr

/-- What has to follow a byte, if a character can start with it. -/
def Lead.of? (b : UInt8) : Option Lead :=
  if b < 0x80 then some ⟨0, 0x80, 0xBF⟩
  else if b < 0xC2 then none
  else if b < 0xE0 then some ⟨1, 0x80, 0xBF⟩
  else if b = 0xE0 then some ⟨2, 0xA0, 0xBF⟩
  else if b = 0xED then some ⟨2, 0x80, 0x9F⟩
  else if b < 0xF0 then some ⟨2, 0x80, 0xBF⟩
  else if b = 0xF0 then some ⟨3, 0x90, 0xBF⟩
  else if b < 0xF4 then some ⟨3, 0x80, 0xBF⟩
  else if b = 0xF4 then some ⟨3, 0x80, 0x8F⟩
  else none

/-- How many bytes rightly continue a character of which `extra` are due, and what is wrong with
the next one if they are fewer. -/
def continuation (low high : UInt8) : Nat → List UInt8 → Nat × Option Reason
  | 0, _ => (0, none)
  | _ + 1, [] => (0, some .unexpectedEnd)
  | extra + 1, b :: rest =>
    if low ≤ b && b ≤ high then
      let (n, reason) := continuation 0x80 0xBF extra rest
      (n + 1, reason)
    else (0, some .invalidContinuation)

/-- The first flaw of bytes with `position` bytes before them; where there is none, the end of
the bytes. -/
def diagnose (position : Nat) : List UInt8 → Flaw
  | [] => ⟨position, [], .unexpectedEnd⟩
  | b :: rest =>
    match Lead.of? b with
    | none => ⟨position, [b], .invalidStart⟩
    | some lead =>
      match continuation lead.low lead.high lead.extra rest with
      | (n, some reason) => ⟨position, b :: rest.take n, reason⟩
      | (n, none) => diagnose (position + 1 + n) (rest.drop n)
termination_by bytes => bytes.length

/-- Decode strict UTF-8. -/
def decode (bytes : ByteArray) : Except Flaw String :=
  match String.fromUTF8? bytes with
  | some s => .ok s
  | none => .error (diagnose 0 bytes.toList)

end ThreadedForth.Utf8
