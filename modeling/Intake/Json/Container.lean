import Intake.Json.StringLiteral

/-!
# Containers in a text

Arrays and objects have one shape: elements separated by commas up to a closing bracket.  What an
element is, and what becomes of it, is up to the caller, who passes a step that reads one element
and takes it into a state.

* `foldElements`: takes in the elements of a container after its opening bracket.
* `readKey`, `readColon`: the start of a member.

Readers of the format fail with `Malformed`; a step may fail with any error that `Malformed` lifts
to.
-/

namespace Intake.Json

/-- The key of a member. -/
def readKey (text : List Char) : Except Malformed (String × List Char) :=
  match dropBlanks text with
  | [] => .error .endOfInput
  | c :: rest => if c = '"' then StringLiteral.read rest else .error .badSyntax

/-- The colon between a key and its value; gives the text after it. -/
def readColon (text : List Char) : Except Malformed (List Char) :=
  match dropBlanks text with
  | [] => .error .endOfInput
  | c :: rest => if c = ':' then .ok rest else .error .badSyntax

/-- What stands after an element: a comma (`true`), or the closing bracket (`false`). -/
def readSeparator (closing : Char) (text : List Char) : Except Malformed (Bool × List Char) :=
  match dropBlanks text with
  | [] => .error .endOfInput
  | c :: rest =>
    if c = closing then .ok (false, rest)
    else if c = ',' then .ok (true, rest)
    else .error .badSyntax

section
variable {σ ε : Type} [MonadLiftT (Except Malformed) (Except ε)]

/-- Takes in one element and those after it, at most `limit` of them. -/
def foldSeparated (closing : Char) (step : σ → List Char → Except ε (σ × List Char)) :
    Nat → σ → List Char → Except ε (σ × List Char)
  | 0, _, _ => liftM (m := Except Malformed) (.error .endOfInput)
  | limit + 1, s, text => do
    let (s, rest) ← step s text
    let (another, rest) ← readSeparator closing rest
    if another then foldSeparated closing step limit s rest else pure (s, rest)

/-- Takes in the elements of a container, from the text after its opening bracket to its closing
bracket.  The limit must not be less than the number of elements; the length of the text will do. -/
def foldElements (closing : Char) (step : σ → List Char → Except ε (σ × List Char))
    (limit : Nat) (s : σ) (text : List Char) : Except ε (σ × List Char) :=
  match dropBlanks text with
  | [] => liftM (m := Except Malformed) (.error .endOfInput)
  | c :: rest => if c = closing then pure (s, rest) else foldSeparated closing step limit s text

end

end Intake.Json
