import Intake.Json.Basic

/-!
# String literals

A string between quotation marks.  Reading is a machine that takes one character at a time from the
one after the opening mark; a text that ends before the closing mark ended too early, whatever the
machine was waiting for.

* `StringLiteral.write`: the literal of a string.
* `StringLiteral.read`: the string of a literal without its opening mark.
* `StringLiteral.skip`: the text after a literal whose string is not wanted.
-/

namespace Intake.Json.StringLiteral

/-! ### Writing -/

/-- The hexadecimal digit of a number below sixteen, in lower case. -/
def hexDigit (n : Nat) : Char := Nat.digitChar n

/-- The spelling of one character: a mark, a backslash or a control character is escaped, and
everything else stands for itself. -/
def escape (c : Char) : List Char :=
  if c = '"' then ['\\', '"']
  else if c = '\\' then ['\\', '\\']
  else if c = '\x08' then ['\\', 'b']
  else if c = '\x0c' then ['\\', 'f']
  else if c = '\n' then ['\\', 'n']
  else if c = '\r' then ['\\', 'r']
  else if c = '\t' then ['\\', 't']
  else if c.toNat < 0x20 then
    ['\\', 'u', '0', '0', hexDigit (c.toNat / 16), hexDigit (c.toNat % 16)]
  else [c]

/-- The literal of a string. -/
def write (s : String) : List Char := '"' :: (s.toList.flatMap escape ++ ['"'])

/-! ### Reading -/

/-- The character that stands after a backslash for another one. -/
def unescape? (c : Char) : Option Char :=
  if c = '"' then some '"'
  else if c = '\\' then some '\\'
  else if c = '/' then some '/'
  else if c = 'b' then some '\x08'
  else if c = 'f' then some '\x0c'
  else if c = 'n' then some '\n'
  else if c = 'r' then some '\r'
  else if c = 't' then some '\t'
  else none

/-- The value of a hexadecimal digit of either case. -/
def hexValue? (c : Char) : Option Nat :=
  if '0' ≤ c ∧ c ≤ '9' then some (c.toNat - '0'.toNat)
  else if 'a' ≤ c ∧ c ≤ 'f' then some (c.toNat - 'a'.toNat + 10)
  else if 'A' ≤ c ∧ c ≤ 'F' then some (c.toNat - 'A'.toNat + 10)
  else none

/-- The code unit that four hexadecimal digits denote. -/
def unit? : List Char → Option Nat
  | [a, b, c, d] => do
    return (((← hexValue? a) * 16 + (← hexValue? b)) * 16 + (← hexValue? c)) * 16 + (← hexValue? d)
  | _ => none

/-- How many octets characters take in UTF-8. -/
def octets : List Char → Nat
  | [] => 0
  | c :: cs => c.utf8Size + octets cs

/-- What the characters read so far leave open. -/
inductive State where
  /-- Nothing: the next character stands for itself, escapes another or closes the literal. -/
  | plain
  /-- A backslash. -/
  | escape
  /-- A backslash, a `u` and the characters `taken`, perhaps after the first half `high` of a
  surrogate pair. -/
  | codeUnit (high : Option Nat) (taken : List Char)
  /-- The first half of a surrogate pair, which must be followed by an escape. -/
  | half (high : Nat)
  /-- The first half of a surrogate pair and a backslash. -/
  | halfEscape (high : Nat)
deriving DecidableEq

/-- What one character of a literal does. -/
inductive Move where
  /-- It completes a character of the string, or none, and leaves a state. -/
  | next (completed : Option Char) (state : State)
  /-- It closes the literal. -/
  | close

/-- The first half of a surrogate pair. -/
def isHigh (unit : Nat) : Bool := 0xD800 ≤ unit && unit < 0xDC00

/-- The second half of a surrogate pair. -/
def isLow (unit : Nat) : Bool := 0xDC00 ≤ unit && unit < 0xE000

/-- A complete code unit: a character by itself, the first half of a pair, or the second half of the
pair that `high` began.  Halves that form no pair are refused. -/
def acceptUnit (high : Option Nat) (unit : Nat) : Except Malformed Move :=
  match high with
  | none =>
    if isLow unit then .error .badSyntax
    else if isHigh unit then .ok (.next none (.half unit))
    else .ok (.next (some (Char.ofNat unit)) .plain)
  | some high =>
    if isLow unit then
      .ok (.next (some (Char.ofNat (0x10000 + (high - 0xD800) * 0x400 + (unit - 0xDC00)))) .plain)
    else .error .badSyntax

/-- A code unit whose meaning is not wanted. -/
def ignoreUnit (_ : Option Nat) (_ : Nat) : Except Malformed Move := .ok (.next none .plain)

/-- One character more.  The digits of a code unit are looked at only when four octets of them are
there. -/
def State.step (accept : Option Nat → Nat → Except Malformed Move) :
    State → Char → Except Malformed Move
  | .plain, c =>
    if c = '"' then .ok .close
    else if c = '\\' then .ok (.next none .escape)
    else if c.toNat < 0x20 then .error .badSyntax
    else .ok (.next (some c) .plain)
  | .escape, c =>
    if c = 'u' then .ok (.next none (.codeUnit none []))
    else match unescape? c with
      | some c => .ok (.next (some c) .plain)
      | none => .error .badSyntax
  | .codeUnit high taken, c =>
    if octets (taken ++ [c]) < 4 then .ok (.next none (.codeUnit high (taken ++ [c])))
    else match unit? (taken ++ [c]) with
      | some unit => accept high unit
      | none => .error .badSyntax
  | .half high, c => if c = '\\' then .ok (.next none (.halfEscape high)) else .error .badSyntax
  | .halfEscape high, c =>
    if c = 'u' then .ok (.next none (.codeUnit (some high) [])) else .error .badSyntax

/-- The characters of a literal from a state on, and the text after the closing mark. -/
def State.run (accept : Option Nat → Nat → Except Malformed Move) :
    State → List Char → Except Malformed (List Char × List Char)
  | _, [] => .error .endOfInput
  | s, c :: text =>
    match s.step accept c with
    | .error e => .error e
    | .ok .close => .ok ([], text)
    | .ok (.next completed s) =>
      match s.run accept text with
      | .error e => .error e
      | .ok (cs, rest) => .ok (completed.toList ++ cs, rest)

/-- The string of a literal without its opening mark, and the text after it. -/
def read (text : List Char) : Except Malformed (String × List Char) :=
  (State.plain.run acceptUnit text).map fun (cs, rest) => (String.ofList cs, rest)

/-- The text after a literal without its opening mark; halves of surrogate pairs are let pass. -/
def skip (text : List Char) : Except Malformed (List Char) :=
  (State.plain.run ignoreUnit text).map (·.2)

end Intake.Json.StringLiteral
