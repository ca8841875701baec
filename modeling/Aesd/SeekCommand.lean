import Aesd.DriverCore
import Mathlib.Data.List.DropRight

/-!
How `aesdsocket.c` recognises a seek command. The line is a C string, so it ends at the
first NUL in memory, wherever that is; `sscanf` follows glibc for `%u` and `%n`.
-/

namespace Aesd

def cString (memory : Bytes) : Bytes := memory.takeWhile (· ≠ 0)

def isCrlf (byte : UInt8) : Bool := byte == 10 || byte == 13

def trimCrlf (line : Bytes) : Bytes := line.rdropWhile isCrlf

def isSpace (byte : UInt8) : Bool := byte == 32 || (9 ≤ byte && byte ≤ 13)
def isDigit (byte : UInt8) : Bool := 48 ≤ byte && byte ≤ 57

def decimal (digits : Bytes) : Nat :=
  digits.foldl (fun value digit => 10 * value + (digit.toNat - 48)) 0

/-- `strtoul` on 64 bits, for a sign and digits that are already split off. -/
def strtoul (negative : Bool) (digits : Bytes) : Nat :=
  if 2 ^ 64 ≤ decimal digits then 2 ^ 64 - 1
  else if negative then (2 ^ 64 - decimal digits) % 2 ^ 64
  else decimal digits

def splitSign : Bytes → Bool × Bytes
  | 45 :: rest => (true, rest)
  | 43 :: rest => (false, rest)
  | input => (false, input)

def scanUnsigned (input : Bytes) : Option (UInt32 × Bytes) :=
  let (negative, unsigned) := splitSign (input.dropWhile isSpace)
  let digits := unsigned.takeWhile isDigit
  if digits = [] then none
  else some (UInt32.ofNat (strtoul negative digits), unsigned.dropWhile isDigit)

/-- The literal text before the two numbers: AESDCHAR_IOCSEEKTO and a colon. -/
def seekPrefix : Bytes :=
  [65, 69, 83, 68, 67, 72, 65, 82, 95, 73, 79, 67, 83, 69, 69, 75, 84, 79, 58]

/-- What `sscanf` returns and stores; an input failure counts as no match. -/
structure Sscanf where
  matched : Nat
  x : Option UInt32
  y : Option UInt32
  consumed : Nat
  deriving DecidableEq, Repr

/-- `sscanf(line, "AESDCHAR_IOCSEEKTO:%u,%u%n", x, y, &consumed)`. -/
def sscanfSeek (line : Bytes) : Sscanf :=
  if seekPrefix.isPrefixOf line then
    match scanUnsigned (line.drop seekPrefix.length) with
    | none => ⟨0, none, none, 0⟩
    | some (x, 44 :: rest) =>
        match scanUnsigned rest with
        | none => ⟨1, some x, none, 0⟩
        | some (y, rest) => ⟨2, some x, some y, line.length - rest.length⟩
    | some (x, _) => ⟨1, some x, none, 0⟩
  else ⟨0, none, none, 0⟩

/-- `parse_seek_command` on the memory at `line`; `none` when it returns 0. -/
def parseSeekCommand (memory : Bytes) : Option AesdSeekto :=
  let line := trimCrlf (cString memory)
  match sscanfSeek line with
  | ⟨2, some x, some y, consumed⟩ => if line.getD consumed 0 = 0 then some ⟨x, y⟩ else none
  | _ => none

example : parseSeekCommand (seekPrefix ++ [49, 44, 50, 10, 0]) = some ⟨1, 2⟩ := by decide

end Aesd
