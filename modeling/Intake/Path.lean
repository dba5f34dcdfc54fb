import Intake.Text.Utf8

/-!
# Paths

A path is a string of octets, cut into pieces by slashes.  It need not be text.

* `Path.components`: what the pieces of a path mean.
* `Path.join`, `Path.parent`: going down and up.
* `Path.fold`: the path without its dots, double dots and superfluous slashes.
* `Path.resolve`: the folded form of a path, relative ones taken from a working directory.

Folding looks at the path alone: a double dot takes back the name before it, whatever that name
may be on disk.
-/

namespace Intake

/-- A path. -/
abbrev Path := List UInt8

namespace Path

/-- The octet between the pieces of a path. -/
def slash : UInt8 := 0x2F

/-- The octet that dots are made of. -/
def dot : UInt8 := 0x2E

/-- The directory that contains everything. -/
def root : Path := [slash]

/-- Whether a path starts from the root. -/
def isAbsolute (p : Path) : Bool := p.head? == some slash

/-- The pieces between the slashes of a path; they are one more than the slashes. -/
def pieces : Path → List Path
  | [] => [[]]
  | octet :: p =>
    if octet = slash then [] :: pieces p
    else match pieces p with
      | [] => [[octet]]
      | piece :: more => (octet :: piece) :: more

/-! ### Components -/

/-- What a piece of a path means. -/
inductive Component where
  /-- Start from the root. -/
  | root
  /-- Go up. -/
  | parent
  /-- Go down by a name. -/
  | name (octets : Path)
deriving DecidableEq

/-- What a piece means; an empty piece and a lone dot mean nothing. -/
def component? (piece : Path) : Option Component :=
  if piece = [] ∨ piece = [dot] then none
  else if piece = [dot, dot] then some .parent
  else some (.name piece)

/-- What the pieces of a path mean, from left to right. -/
def components (p : Path) : List Component :=
  (if isAbsolute p then [.root] else []) ++ (pieces p).filterMap component?

/-! ### Going down and up -/

/-- A path taken from another one; an absolute path stands for itself. -/
def join (base p : Path) : Path :=
  if isAbsolute p then p
  else if base.isEmpty || base.getLast? == some slash then base ++ p
  else base ++ slash :: p

/-- The path without its last name.  Nothing is above the root. -/
def parent (p : Path) : Path :=
  let kept := (p.reverse.dropWhile (· ≠ slash)).reverse
  if kept = root then root else kept.dropLast

/-! ### Resolution -/

/-- The path after one component more. -/
def step (p : Path) : Component → Path
  | .root => join p root
  | .parent => parent p
  | .name octets => join p octets

/-- The path that the components of a path build up. -/
def fold (p : Path) : Path := (components p).foldl step []

/-- The folded form of a path.  A relative path is taken from the working directory, which may be
unavailable for some reason; an absolute one does not ask for it. -/
def resolve {ε : Type} (workingDirectory : Except ε Path) (p : Path) : Except ε Path :=
  if isAbsolute p then .ok (fold p)
  else return fold (join (← workingDirectory) p)

/-- The text that shows a path, with U+FFFD for each part that is not UTF-8. -/
def display (p : Path) : String := Text.Utf8.lossy p

end Path
end Intake
