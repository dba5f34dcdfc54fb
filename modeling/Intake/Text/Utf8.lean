/-!
# UTF-8 octets

Text on disk is octets; text in memory is characters.  The decoder is a machine that takes one
octet at a time and never fails: where the octets stop being UTF-8 it reports one ill-formed part
and goes on at the octet that broke the sequence.  A part is as long as it can be while it is
still the beginning of some well-formed sequence.

* `decode`: the characters of an octet string, `none` for each ill-formed part.
* `lossy`: the text with U+FFFD for each ill-formed part.
* `strict?`: the text, if no part is ill-formed.
* `encode`: the octets of a text.
-/

namespace Intake.Text.Utf8

/-! ### The machine -/

/-- What the octets read so far leave open. -/
inductive State where
  /-- Nothing: the next octet starts a character. -/
  | boundary
  /-- A sequence with the bits `bits`, whose next octet must lie between `low` and `high` and is
  followed by `later` continuation octets. -/
  | within (later bits low high : Nat)
deriving DecidableEq

/-- What one octet completes: a character, an ill-formed part (`none`), or both in turn. -/
abbrev Output := List (Option Char)

/-- The octet that starts a character.  The narrow ranges after E0, ED, F0 and F4 leave out
overlong forms, surrogates and everything above U+10FFFF. -/
def lead (octet : Nat) : Output × State :=
  if octet < 0x80 then ([some (Char.ofNat octet)], .boundary)
  else if octet < 0xC2 then ([none], .boundary)
  else if octet < 0xE0 then ([], .within 0 (octet - 0xC0) 0x80 0xBF)
  else if octet = 0xE0 then ([], .within 1 0 0xA0 0xBF)
  else if octet = 0xED then ([], .within 1 0xD 0x80 0x9F)
  else if octet < 0xF0 then ([], .within 1 (octet - 0xE0) 0x80 0xBF)
  else if octet = 0xF0 then ([], .within 2 0 0x90 0xBF)
  else if octet < 0xF4 then ([], .within 2 (octet - 0xF0) 0x80 0xBF)
  else if octet = 0xF4 then ([], .within 2 4 0x80 0x8F)
  else ([none], .boundary)

/-- One octet more.  An octet that does not continue the sequence ends it as an ill-formed part and
starts afresh. -/
def State.step : State → Nat → Output × State
  | .boundary, octet => lead octet
  | .within later bits low high, octet =>
    if low ≤ octet ∧ octet ≤ high then
      match later with
      | 0 => ([some (Char.ofNat (bits * 64 + (octet - 0x80)))], .boundary)
      | later + 1 => ([], .within later (bits * 64 + (octet - 0x80)) 0x80 0xBF)
    else (none :: (lead octet).1, (lead octet).2)

/-- The end of the octets: a sequence still open is an ill-formed part. -/
def State.finish : State → Output
  | .boundary => []
  | .within .. => [none]

/-- The output of the octets from a state on. -/
def State.run : State → List UInt8 → Output
  | s, [] => s.finish
  | s, octet :: octets => (s.step octet.toNat).1 ++ (s.step octet.toNat).2.run octets

/-! ### Text -/

/-- The characters of an octet string, `none` for each ill-formed part. -/
def decode (octets : List UInt8) : Output := State.boundary.run octets

/-- The text of an octet string, with U+FFFD for each ill-formed part. -/
def lossy (octets : List UInt8) : String :=
  String.ofList ((decode octets).map (·.getD '\uFFFD'))

/-- The text of an octet string that is well-formed throughout. -/
def strict? (octets : List UInt8) : Option String :=
  ((decode octets).mapM id).map String.ofList

/-- The octets of a text. -/
def encode (text : String) : List UInt8 := text.toList.flatMap String.utf8EncodeChar

end Intake.Text.Utf8
