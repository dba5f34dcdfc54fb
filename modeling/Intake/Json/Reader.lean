import Intake.Json.Container
import Intake.Json.Numeral
import Intake.Json.Tree

/-!
# Trees and values from text

A tree is read from left to right, and the first fault is reported.  Arrays and objects may be
nested 127 levels deep.  A value is what a tree means: a canonical tree, in which no key occurs
twice and the order of members carries nothing.

* `readScalar`: a word, a number or a string.
* `readTree`: any tree, with a budget of levels.
* `Tree.read`: the tree of a whole text.
* `skipTree`: the text after a tree that is not wanted.
* `Value.ofTree`, `Value.read`: the value that a tree means, and the value of a text.
* `Value.member?`: what an object holds under a key.
-/

namespace Intake.Json

/-- How many levels of arrays and objects a text may have. -/
def nestingLimit : Nat := 127

/-- The text after the remaining letters of a word. -/
def readLetters : List Char → List Char → Except Malformed (List Char)
  | [], text => .ok text
  | _ :: _, [] => .error .endOfInput
  | letter :: letters, c :: text =>
    if c = letter then readLetters letters text else .error .badSyntax

/-- The number at the start of a text; one too large for a double is refused. -/
def readNumber (text : List Char) : Except Malformed (Number × List Char) := do
  let (numeral, rest) ← Numeral.read text
  match numeral.toNumber? with
  | some n => .ok (n, rest)
  | none => .error .badSyntax

/-- The word, number or string at the start of a text. -/
def readScalar : List Char → Except Malformed (Tree × List Char)
  | [] => .error .endOfInput
  | c :: text =>
    if c = 'n' then return (.null, ← readLetters ['u', 'l', 'l'] text)
    else if c = 't' then return (.boolean true, ← readLetters ['r', 'u', 'e'] text)
    else if c = 'f' then return (.boolean false, ← readLetters ['a', 'l', 's', 'e'] text)
    else if c = '"' then do
      let (s, rest) ← StringLiteral.read text
      return (.string s, rest)
    else if c = '-' ∨ c.isDigit then do
      let (n, rest) ← readNumber (c :: text)
      return (.number n, rest)
    else .error .badSyntax

/-- Puts an item in front of those before it. -/
def takeItem (item : List Char → Except Malformed (Tree × List Char)) (items : List Tree)
    (text : List Char) : Except Malformed (List Tree × List Char) := do
  let (t, rest) ← item text
  return (t :: items, rest)

/-- Puts a member in front of those before it. -/
def takeMember (item : List Char → Except Malformed (Tree × List Char))
    (members : List (String × Tree)) (text : List Char) :
    Except Malformed (List (String × Tree) × List Char) := do
  let (key, rest) ← readKey text
  let (t, rest) ← item (← readColon rest)
  return ((key, t) :: members, rest)

/-- The tree at the start of a text, which may have `budget` levels.  A bracket that opens one level
more is refused at once. -/
def readTree (limit : Nat) (budget : Nat) (text : List Char) :
    Except Malformed (Tree × List Char) :=
  match dropBlanks text with
  | '[' :: rest =>
    match budget with
    | 0 => .error .badSyntax
    | budget + 1 => do
      let (items, rest) ← foldElements ']' (takeItem (readTree limit budget)) limit [] rest
      return (.array items.reverse, rest)
  | '{' :: rest =>
    match budget with
    | 0 => .error .badSyntax
    | budget + 1 => do
      let (members, rest) ← foldElements '}' (takeMember (readTree limit budget)) limit [] rest
      return (.object members.reverse, rest)
  | rest => readScalar rest

/-- Nothing but blanks may follow a whole text. -/
def ensureEnd (text : List Char) : Except Malformed Unit :=
  match dropBlanks text with
  | [] => .ok ()
  | _ :: _ => .error .badSyntax

/-- The tree of a whole text. -/
def Tree.read (text : String) : Except Malformed Tree := do
  let (t, rest) ← readTree text.toList.length nestingLimit text.toList
  ensureEnd rest
  return t

/-! ### Unwanted values

A value that nobody asked for is passed over with less care: halves of surrogate pairs and numbers
too large for a double are let pass, levels are not counted, and a number that the end of the text
cuts off is a fault of syntax. -/

/-- The text after a number; one that the end of the text cuts off is a fault of syntax. -/
def skipNumber (text : List Char) : Except Malformed (List Char) :=
  match Numeral.read text with
  | .ok (_, rest) => .ok rest
  | .error _ => .error .badSyntax

/-- The text after a word, a number or a string. -/
def skipScalar : List Char → Except Malformed (List Char)
  | [] => .error .endOfInput
  | c :: text =>
    if c = 'n' then readLetters ['u', 'l', 'l'] text
    else if c = 't' then readLetters ['r', 'u', 'e'] text
    else if c = 'f' then readLetters ['a', 'l', 's', 'e'] text
    else if c = '"' then StringLiteral.skip text
    else if c = '-' ∨ c.isDigit then skipNumber (c :: text)
    else .error .badSyntax

/-- The text after a key. -/
def skipKey (text : List Char) : Except Malformed (List Char) :=
  match dropBlanks text with
  | [] => .error .endOfInput
  | c :: rest => if c = '"' then StringLiteral.skip rest else .error .badSyntax

/-- Passes over an item. -/
def skipItem (item : List Char → Except Malformed (List Char)) (_ : Unit) (text : List Char) :
    Except Malformed (Unit × List Char) := do
  return ((), ← item text)

/-- Passes over a member. -/
def skipMember (item : List Char → Except Malformed (List Char)) (_ : Unit) (text : List Char) :
    Except Malformed (Unit × List Char) := do
  return ((), ← item (← readColon (← skipKey text)))

/-- The text after a tree.  The budget must not be less than its depth; the length of the text will
do. -/
def skipTree (limit : Nat) (budget : Nat) (text : List Char) : Except Malformed (List Char) :=
  match dropBlanks text with
  | '[' :: rest =>
    match budget with
    | 0 => .error .badSyntax
    | budget + 1 => do
      let (_, rest) ← foldElements ']' (skipItem (skipTree limit budget)) limit () rest
      return rest
  | '{' :: rest =>
    match budget with
    | 0 => .error .badSyntax
    | budget + 1 => do
      let (_, rest) ← foldElements '}' (skipMember (skipTree limit budget)) limit () rest
      return rest
  | rest => skipScalar rest

/-! ### Untyped values -/

/-- An untyped value. -/
structure Value where
  /-- The content, with every object's keys in strictly ascending order. -/
  tree : Tree
  canonical : tree.Canonical

namespace Value

@[ext] theorem ext {v w : Value} (h : v.tree = w.tree) : v = w := by
  cases v; cases w; cases h; rfl

/-- The value that a tree means. -/
def ofTree (t : Tree) : Value := ⟨t.normalize, t.normalize_canonical⟩

/-- The value of a text. -/
def read (text : String) : Except Malformed Value := (Tree.read text).map ofTree

/-- The compact text of a value, its keys sorted. -/
def text (v : Value) : String := v.tree.text

/-- What an object holds under a key. -/
def member? (v : Value) (key : String) : Option Tree :=
  match v.tree with
  | .object members => members.lookup key
  | _ => none

/-- Equality of values, in which doubles are compared as numbers. -/
def agrees (v w : Value) : Bool := v.tree.agrees w.tree

end Value

end Intake.Json
