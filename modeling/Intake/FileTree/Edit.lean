import Intake.FileTree

/-!
# Changing file trees

What a user does to a file tree: making and removing nodes, changing their permission bits and
moving about.  A change that makes no sense, such as one below a directory that is not there, leaves
the tree as it is.

* `FileTree.write`, `makeDirectories`, `makeLink`, `shareLeaf`, `makeLeaf`: new nodes.
* `FileTree.remove`, `rename`, `changeMode`, `enter`: the others.
-/

namespace Intake

namespace Node

/-- Changes the entry of a directory under a name; nothing in its place removes it. -/
def setChild (name : Name) (child : Option Node) : Node → Node
  | directory mode entries =>
    let others := entries.filter (·.1 ≠ name)
    directory mode (match child with
      | some child => others ++ [(name, child)]
      | none => others)
  | node => node

/-- Changes the node at a position. -/
def change (f : Node → Node) : Position → Node → Node
  | [], node => f node
  | name :: names, node =>
    match node.child? name with
    | some child => node.setChild name (some (child.change f names))
    | none => node

end Node

namespace FileTree

/-- Permission bits of directories that are made without being asked for some. -/
def directoryMode : Nat := 0o755

/-- Permission bits of files that are made without being asked for some. -/
def fileMode : Nat := 0o644

/-- The tree of directories that lead to a position, in which the working directory is the last. -/
def ofPosition (position : Position) : FileTree where
  root := position.foldr (fun name node => .directory directoryMode [(name, node)])
    (.directory directoryMode [])
  leaves := []
  workingDirectory := some position

/-! ### Finding places -/

/-- The walk of whoever lays out a tree, without regard to permission bits. -/
def ownerPassage : Node.Passage where
  enter := Node.isDirectory
  stay := Node.isDirectory

/-- Where a path starts from. -/
def origin? (tree : FileTree) (path : Path) : Option Position :=
  if path.isAbsolute then some [] else tree.workingDirectory

/-- The position that pieces lead to. -/
def find? (tree : FileTree) (origin : Position) (pieces : List Path) : Option Position :=
  tree.root.walk ownerPassage linkLimit origin pieces

/-- The position that a path leads to. -/
def locate? (tree : FileTree) (path : Path) : Option Position := do
  tree.find? (← tree.origin? path) path.pieces

/-- The pieces of a path without empty ones. -/
def names (path : Path) : List Path := path.pieces.filter (· ≠ [])

/-- The position of the directory that is to hold what a path names, and the name in it. -/
def place? (tree : FileTree) (path : Path) : Option (Position × Name) := do
  let names := names path
  return (← tree.find? (← tree.origin? path) names.dropLast, ← names.getLast?)

/-- The place where a path's file is or will be, links at the end followed. -/
def filePlace? (tree : FileTree) : Nat → Position → List Path → Option (Position × Name)
  | 0, _, _ => none
  | links + 1, origin, pieces => do
    let here ← tree.find? origin pieces.dropLast
    let name ← pieces.getLast?
    match tree.root.at? (here ++ [name]) with
    | some (.link target) =>
      filePlace? tree links (if target.isAbsolute then [] else here) (names target)
    | _ => return (here, name)

/-! ### Making nodes -/

/-- Puts a node at a place, or removes what is there. -/
def put (tree : FileTree) (here : Position) (name : Name) (node : Option Node) : FileTree :=
  { tree with root := tree.root.change (·.setChild name node) here }

/-- Puts a new leaf at a place. -/
def putLeaf (tree : FileTree) (here : Position) (name : Name) (leaf : Leaf) : FileTree :=
  { tree.put here name (some (.leaf tree.leaves.length)) with leaves := tree.leaves ++ [leaf] }

/-- Writes a file with its octets and its permission bits.  A file that is there already keeps its
other names. -/
def write (tree : FileTree) (path : Path) (octets : List UInt8) (mode : Nat) : FileTree :=
  let leaf : Leaf := ⟨mode, .octets octets⟩
  match (tree.origin? path).bind fun origin => tree.filePlace? linkLimit origin (names path) with
  | none => tree
  | some (here, name) =>
    match tree.root.at? (here ++ [name]) with
    | some (.leaf number) => { tree with leaves := tree.leaves.set number leaf }
    | _ => tree.putLeaf here name leaf

/-- Makes a leaf that is no ordinary file. -/
def makeLeaf (tree : FileTree) (path : Path) (leaf : Leaf) : FileTree :=
  match tree.place? path with
  | some (here, name) => tree.putLeaf here name leaf
  | none => tree

/-- Makes a symbolic link. -/
def makeLink (tree : FileTree) (path target : Path) : FileTree :=
  match tree.place? path with
  | some (here, name) => tree.put here name (some (.link target))
  | none => tree

/-- Gives a leaf another name. -/
def shareLeaf (tree : FileTree) (path target : Path) : FileTree :=
  match tree.place? path, (tree.locate? target).bind tree.root.at? with
  | some (here, name), some (.leaf number) => tree.put here name (some (.leaf number))
  | _, _ => tree

/-- Makes the directories of the pieces after `done` that are not there yet. -/
def makePieces (tree : FileTree) (origin : Position) (done : List Path) : List Path → FileTree
  | [] => tree
  | piece :: more =>
    let tree' :=
      match tree.find? origin (done ++ [piece]) with
      | some _ => tree
      | none =>
        match tree.find? origin done with
        | some here => tree.put here piece (some (.directory directoryMode []))
        | none => tree
    makePieces tree' origin (done ++ [piece]) more

/-- Sets the permission bits of what a path leads to. -/
def changeMode (tree : FileTree) (path : Path) (mode : Nat) : FileTree :=
  match tree.locate? path with
  | none => tree
  | some here =>
    match tree.root.at? here with
    | some (.leaf number) =>
      { tree with leaves := tree.leaves.modify number fun leaf => { leaf with mode } }
    | some (.directory ..) =>
      let setMode : Node → Node
        | .directory _ entries => .directory mode entries
        | node => node
      { tree with root := tree.root.change setMode here }
    | _ => tree

/-- Makes a directory with its permission bits, and those above it that are not there yet. -/
def makeDirectories (tree : FileTree) (path : Path) (mode : Nat) : FileTree :=
  match tree.origin? path with
  | none => tree
  | some origin => (tree.makePieces origin [] (names path)).changeMode path mode

/-! ### Removing and moving -/

/-- Removes what a path names, a link itself and not its target.  When that is the working
directory, there is none any more. -/
def remove (tree : FileTree) (path : Path) : FileTree :=
  match tree.place? path with
  | none => tree
  | some (here, name) =>
    let tree := tree.put here name none
    { tree with
      workingDirectory := tree.workingDirectory.filter (!(here ++ [name]).isPrefixOf ·) }

/-- Whether two nodes are the same leaf. -/
def sameLeaf : Node → Option Node → Bool
  | .leaf m, some (.leaf n) => m == n
  | _, _ => false

/-- Moves what a path names to another place, and the working directory with it.  Two names of one
leaf both stay. -/
def rename (tree : FileTree) (path target : Path) : FileTree :=
  match tree.place? path, tree.place? target with
  | some (here, name), some (there, name') =>
    match tree.root.at? (here ++ [name]) with
    | none => tree
    | some node =>
      let source := here ++ [name]
      let goal := there ++ [name']
      if sameLeaf node (tree.root.at? goal) then tree else
      let moved := fun position : Position =>
        if source.isPrefixOf position then some (goal ++ position.drop source.length)
        else if goal.isPrefixOf position then none
        else some position
      let tree := tree.put here name none
      let tree := tree.put there name' (some node)
      { tree with workingDirectory := tree.workingDirectory.bind moved }
  | _, _ => tree

/-- Moves into the directory that a path leads to. -/
def enter (tree : FileTree) (path : Path) : FileTree :=
  match tree.locate? path with
  | some here =>
    match tree.root.at? here with
    | some (.directory ..) => { tree with workingDirectory := some here }
    | _ => tree
  | none => tree

end FileTree
end Intake
